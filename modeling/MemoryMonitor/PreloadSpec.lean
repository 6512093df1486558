import MemoryMonitor.PreloadShim
import MemoryMonitor.ControlSpec
import MemoryMonitor.Machine

/-! # What the shim guarantees

The invariant says where each pointer of the client lies: at its base block, or inside
the payload of its base block behind an aligned header.  The header is part of what the
shim asked the allocator for and not of what the client may write, so it survives until
the shim itself clears it; and where a plain pointer has its base block's header, the
magic values differ.  That is all `is_aligned_ptr` rests on.
-/
namespace MemoryMonitor

open ByteMemory Tiling

/-! ## Aligning -/

namespace Shim

/-- Clearing the low bits of a word. -/
theorem and_high_bits {x k : Nat} (hx : x < 2 ^ 64) (hk : 2 ^ k ≤ 2 ^ 64) :
    x &&& (2 ^ 64 - 1 - (2 ^ k - 1)) = x / 2 ^ k * 2 ^ k := by
  apply Nat.eq_of_testBit_eq
  intro i
  have hpos := Nat.two_pow_pos k
  rw [show 2 ^ 64 - 1 - (2 ^ k - 1) = 2 ^ 64 - (2 ^ k - 1 + 1) by omega, Nat.testBit_and,
    Nat.testBit_two_pow_sub_succ (by omega), Nat.testBit_two_pow_sub_one, Nat.testBit_mul_two_pow,
    Nat.testBit_div_two_pow]
  by_cases hi : i < 64
  · by_cases hki : k ≤ i
    · simp [hi, hki]
    · simp [hki, Nat.lt_of_not_le hki]
  · have hbit : x.testBit i = false :=
      Nat.testBit_lt_two_pow (lt_of_lt_of_le hx (Nat.pow_le_pow_right (by omega) (by omega)))
    by_cases hki : k ≤ i
    · simp [hbit, hki]
    · simp [hbit, hki]

/-- What passes the source's test is a power of two; a machine word is at most `2 ^ 63`. -/
theorem OneBit.pow {a : Nat} (h : OneBit a) (hpos : 0 < a) (ha : a < 2 ^ 64) :
    ∃ k, a = 2 ^ k ∧ k < 64 := by
  obtain ⟨k, rfl⟩ := (Nat.and_sub_one_eq_zero_iff_isPowerOfTwo (by omega)).mp h
  exact ⟨k, rfl, (Nat.pow_lt_pow_iff_right (by omega)).mp ha⟩

theorem OneBit.le_half {a : Nat} (h : OneBit a) (hpos : 0 < a) (ha : a < 2 ^ 64) : a ≤ 2 ^ 63 := by
  obtain ⟨k, rfl, hk⟩ := h.pow hpos ha
  exact Nat.pow_le_pow_right (by omega) (by omega)

/-- Of two powers of two the smaller divides the larger. -/
theorem OneBit.dvd {a j : Nat} (h : OneBit a) (ha : a < 2 ^ 64) (hj : 2 ^ j ≤ a) : 2 ^ j ∣ a := by
  obtain ⟨k, rfl, -⟩ := h.pow (lt_of_lt_of_le (Nat.two_pow_pos j) hj) ha
  exact pow_dvd_pow 2 ((Nat.pow_le_pow_iff_right (by omega)).mp hj)

/-- **The aligned address is the next multiple of the alignment.** -/
theorem alignTo_spec (raw : Nat) {a : Nat} (h : OneBit a) (hpos : 0 < a) (ha : a < 2 ^ 64)
    (hr : raw + a - 1 < 2 ^ 64) :
    raw ≤ alignTo raw a ∧ alignTo raw a < raw + a ∧ a ∣ alignTo raw a := by
  obtain ⟨k, rfl, -⟩ := h.pow hpos ha
  unfold alignTo
  rw [Nat.mod_eq_of_lt hr, and_high_bits hr (le_of_lt ha)]
  have h1 := Nat.div_mul_le_self (raw + 2 ^ k - 1) (2 ^ k)
  have h2 := Nat.lt_div_mul_add hpos (a := raw + 2 ^ k - 1)
  exact ⟨by omega, by omega, Nat.dvd_mul_left _ _⟩

/-- The header reads back as it was put. -/
theorem putAlignedHeader_spec (m : Mem) (ah offset reqSize : Nat) (ho : offset < 2 ^ 64)
    (hr : reqSize < 2 ^ 64) :
    ahMagic (putAlignedHeader m ah offset reqSize) ah = alignedBlockMagic ∧
    ahOffset (putAlignedHeader m ah offset reqSize) ah = offset ∧
    ahRequestedSize (putAlignedHeader m ah offset reqSize) ah = reqSize ∧
    Set.EqOn (putAlignedHeader m ah offset reqSize) m (range ah 24)ᶜ := by
  unfold ahMagic ahOffset ahRequestedSize putAlignedHeader
  refine ⟨?_, ?_, ?_, ?_⟩
  · simp (disch := omega) only [readLE_writeLE_disjoint]
    exact readLE_writeLE_same (by decide)
  · simp (disch := omega) only [readLE_writeLE_disjoint]
    exact readLE_writeLE_same (by omega)
  · exact readLE_writeLE_same (by omega)
  · intro x hx
    rw [Set.mem_compl_iff, mem_range] at hx
    simp (disch := omega) only [writeLE_of_disjoint]

theorem memcpy_zero (m : Mem) (dst src : Nat) : memcpy m dst src 0 = m :=
  funext fun _ => overwrite_of_disjoint (by omega)

/-- Copying nothing is no exception. -/
theorem copyOver_eq {s : Shim} {newP ptr c : Nat} (hfrom : s.st.deref ptr c = .ok ())
    (hto : s.st.deref newP c = .ok ()) :
    s.copyOver newP ptr c = .ok { s with st := { s.st with mem := memcpy s.st.mem newP ptr c } } := by
  unfold copyOver
  by_cases h0 : 0 < c
  · rw [if_pos h0, hfrom, ok_bind, hto, ok_bind]
  · obtain rfl : c = 0 := by omega
    rw [if_neg h0, memcpy_zero]

/-- What a copy that succeeds has done. -/
theorem copyOver_ok {s s' : Shim} {newP ptr c : Nat} (h : s.copyOver newP ptr c = .ok s') :
    s' = { s with st := { s.st with mem := memcpy s.st.mem newP ptr c } } := by
  by_cases h0 : 0 < c
  · unfold copyOver at h
    rw [if_pos h0] at h
    obtain ⟨_, -, h⟩ := bind_ok h
    obtain ⟨_, -, h⟩ := bind_ok h
    exact (Except.ok.inj h).symm
  · obtain rfl : c = 0 := by omega
    rw [copyOver, if_neg h0] at h
    rw [memcpy_zero]
    exact (Except.ok.inj h).symm

end Shim

/-! ## The client's side -/

/-- The allocations the allocator has given and not got back. -/
def outstanding : List Event → List Alloc
  | [] => []
  | .gave p size :: l => ⟨p, size⟩ :: outstanding l
  | .placed _ _ :: l => outstanding l
  | .took p :: l => forget p (outstanding l)
  | .moved p size q :: l =>
    if q ≠ 0 then ⟨q, size⟩ :: forget p (outstanding l)
    else if size = 0 then forget p (outstanding l) else outstanding l

/-- Every pointer handed to `my_free` or `my_realloc` was one the allocator had given and
not got back. -/
def Routed : List Event → Prop
  | [] => True
  | .gave _ _ :: l => Routed l
  | .placed _ _ :: l => Routed l
  | .took p :: l => (∃ a ∈ outstanding l, a.ptr = p) ∧ Routed l
  | .moved p _ _ :: l => (∃ a ∈ outstanding l, a.ptr = p) ∧ Routed l

/-- The pointers handed to `my_free` and `my_realloc`. -/
def handed : List Event → List Nat
  | [] => []
  | .took p :: l => p :: handed l
  | .moved p _ _ :: l => p :: handed l
  | .gave _ _ :: l => handed l
  | .placed _ _ :: l => handed l

/-- An allocation of the shim's client: its pointer and the size it asked for, the
pointer the allocator returned for it, and whether `aligned_alloc_internal` placed it. -/
structure Client where
  ptr : Nat
  size : Nat
  base : Nat
  aligned : Bool
deriving DecidableEq, Repr

/-- A call that returned `p`, as the log tells it. -/
def record (log : List Event) (p n : Nat) : Client :=
  match log with
  | .placed base _ :: _ => ⟨p, n, base, true⟩
  | _ => ⟨p, n, p, false⟩

/-- The client's allocations without the one at `ptr`. -/
def without (ptr : Nat) (live : List Client) : List Client := live.filter fun e => e.ptr ≠ ptr

/-- The client's allocations after `realloc` of `ptr` to `size` bytes returned `q`. -/
def resized (log : List Event) (ptr size q : Nat) (live : List Client) : List Client :=
  if q ≠ 0 then record log q size :: without ptr live
  else if size = 0 then without ptr live else live

/-- The shim and the allocations its client holds. -/
structure Process where
  shim : Shim
  live : List Client

/-- Where a client's pointer lies in its base block, of which `k` bytes were asked for. -/
structure Placed (m : Mem) (e : Client) (k : Nat) : Prop where
  base_le : e.base ≤ e.ptr
  inside : e.ptr < e.base + k
  room : e.ptr + e.size ≤ e.base + k
  plain : e.aligned = false → e.ptr = e.base
  apart : e.aligned = true → e.base + 48 ≤ e.ptr ∧ e.ptr % 8 = 0
  magic : e.aligned = true → Shim.ahMagic m (e.ptr - 48) = alignedBlockMagic
  offset : e.aligned = true → Shim.ahOffset m (e.ptr - 48) = e.ptr - (e.base - 48)
  requested : e.aligned = true → e.size ≤ Shim.ahRequestedSize m (e.ptr - 48) ∧
    e.ptr + Shim.ahRequestedSize m (e.ptr - 48) ≤ e.base + k

/-- The aligned header survives what leaves the base block alone. -/
theorem Placed.congr {m m' : Mem} {e : Client} {k : Nat} (h : Placed m e k)
    (heq : Set.EqOn m' m (range e.base k ∩ {x | x < e.ptr})) : Placed m' e k := by
  have hread : e.aligned = true → ∀ {b c}, e.ptr - 48 ≤ b → b + c ≤ e.ptr - 48 + 24 →
      readLE m' b c = readLE m b c := by
    intro ha b c h1 h2
    have h3 := (h.apart ha).1
    have h4 := h.inside
    refine readLE_congr fun x hx hx' => heq ⟨mem_range.mpr ⟨?_, ?_⟩, ?_⟩
    · omega
    · omega
    · show x < e.ptr
      omega
  refine { h with magic := fun ha => ?_, offset := fun ha => ?_, requested := fun ha => ?_ }
  · exact (hread ha (by omega) (by omega)).trans (h.magic ha)
  · exact (hread ha (by omega) (by omega)).trans (h.offset ha)
  · have hr := hread ha (b := e.ptr - 48 + 16) (c := 8) (by omega) (by omega)
    unfold Shim.ahRequestedSize
    rw [hr]
    exact h.requested ha

/-- A client's pointer to a block as the allocator returned it. -/
theorem Placed.of_plain (m : Mem) (p : Nat) {n k : Nat} (hn : n ≤ k) (hk : 0 < k) :
    Placed m ⟨p, n, p, false⟩ k :=
  ⟨le_refl _, by simp only; omega, by simp only; omega, fun _ => rfl, by simp, by simp, by simp,
    by simp⟩

/-- **The invariant of the shim.** -/
structure ShimInv (P : Process) : Prop where
  idle : P.shim.inAllocator = false
  inv : Inv False P.shim.st (outstanding P.shim.log)
  routed : Routed P.shim.log
  placed : ∀ e ∈ P.live, ∃ k, (⟨e.base, k⟩ : Alloc) ∈ outstanding P.shim.log ∧
    Placed P.shim.st.mem e k
  distinct : (P.live.map Client.base).Nodup
  /-- The static buffer lies in memory that the kernel has mapped for the program. -/
  segment : ∃ mp ∈ P.shim.st.maps, mp.addr ≤ P.shim.bootstrapBuf ∧
    P.shim.bootstrapBuf + bootstrapBufSize ≤ mp.addr + mp.len ∧
    ∀ a ∈ outstanding P.shim.log, a.ptr ≠ mp.addr + 48

/-- The static buffer is where it was, byte for byte, and its cursor too. -/
structure SameArena (s s' : Shim) : Prop where
  buf : s'.bootstrapBuf = s.bootstrapBuf
  offset : s'.bootstrapOffset = s.bootstrapOffset
  bytes : Set.EqOn s'.st.mem s.st.mem (range s.bootstrapBuf bootstrapBufSize)

theorem SameArena.refl (s : Shim) : SameArena s s := ⟨rfl, rfl, fun _ _ => rfl⟩

theorem SameArena.trans {s s₁ s₂ : Shim} (h : SameArena s s₁) (h' : SameArena s₁ s₂) :
    SameArena s s₂ := by
  refine ⟨h'.buf.trans h.buf, h'.offset.trans h.offset, ?_⟩
  have hb := h'.bytes
  rw [h.buf] at hb
  exact hb.trans h.bytes

/-- The bytes of a new allocation end inside the address space. -/
theorem Inv.end_lt {shared : Prop} {s : State} {p k : Nat} {live : List Alloc}
    (I : Inv shared s (⟨p, k⟩ :: live)) : p + k < 2 ^ 64 - 4096 := by
  obtain ⟨lo, segs, lists, H⟩ := I
  obtain ⟨a, n, t, h⟩ := H.held _ (List.mem_cons_self ..)
  have h1 : p = a + 48 := h.ptr_eq
  have h2 : k + 64 ≤ n := h.room
  have h3 := (H.held_bounds h).2.2.1
  unfold addrLimit at h3
  omega

namespace ShimInv
variable {P : Process} {e e' : Client}

/-- Two allocations of the client have different base blocks. -/
theorem eq_of_base (I : ShimInv P) (he : e ∈ P.live) (he' : e' ∈ P.live) (h : e.base = e'.base) :
    e = e' :=
  List.inj_on_of_nodup_map I.distinct he he' h

/-- Two allocations of the client have different pointers. -/
theorem ptr_ne (I : ShimInv P) (he : e ∈ P.live) (he' : e' ∈ P.live) (hne : e ≠ e') :
    e.ptr ≠ e'.ptr := by
  obtain ⟨k, hk, hp⟩ := I.placed e he
  obtain ⟨k', hk', hp'⟩ := I.placed e' he'
  obtain ⟨lo, segs, lists, H⟩ := I.inv
  have hb : (⟨e.base, k⟩ : Alloc) ≠ ⟨e'.base, k'⟩ := by
    intro h
    exact hne (I.eq_of_base he he' (Alloc.mk.inj h).1)
  intro h
  have h1 : e.ptr ∈ (⟨e.base, k⟩ : Alloc).payload := mem_range.mpr ⟨hp.base_le, hp.inside⟩
  have h2 : e.ptr ∈ (⟨e'.base, k'⟩ : Alloc).payload := by
    rw [h]
    exact mem_range.mpr ⟨hp'.base_le, hp'.inside⟩
  exact Set.disjoint_left.mp (H.payload_disjoint hk hk' hb) h1 h2

/-- What the allocator has given lies outside the static buffer. -/
theorem not_bootstrap (I : ShimInv P) {a : Alloc} (ha : a ∈ outstanding P.shim.log) {x : Nat}
    (h1 : a.ptr ≤ x) (h2 : x < a.ptr + a.size) : P.shim.isBootstrapPtr x = false := by
  obtain ⟨mp, hmp, hlo, hhi, hout⟩ := I.segment
  by_contra hb
  simp only [Shim.isBootstrapPtr, Bool.and_eq_true, decide_eq_true_eq, Bool.not_eq_false] at hb
  exact Set.disjoint_left.mp (I.inv.payload_outside ha hmp (hout a ha)) (mem_range.mpr ⟨h1, h2⟩)
    (mem_range.mpr ⟨by omega, by omega⟩)

/-- A call of the allocator leaves the static buffer alone. -/
theorem sameArena {s : Shim} {live : List Client} (I : ShimInv ⟨s, live⟩) {st' : State} {ptr : Nat}
    (hkept : MapsKept s.st ptr st') (hptr : ptr = 0 ∨ ∃ a ∈ outstanding s.log, a.ptr = ptr)
    (log' : List Event) : SameArena s { s with st := st', log := log' } := by
  obtain ⟨mp, hmp, h1, h2, hout⟩ := I.segment
  have hop : ptr ≠ mp.addr + 48 := by
    rcases hptr with rfl | ⟨a, ha, rfl⟩
    · omega
    · exact hout a ha
  exact ⟨rfl, rfl, (hkept mp hmp hop).mono (range_subset h1 h2)⟩

/-- **`is_aligned_ptr` is right about every pointer of the client.** -/
theorem isAlignedPtr (I : ShimInv P) (he : e ∈ P.live) :
    P.shim.isAlignedPtr e.ptr = .ok (if e.aligned then
      some (e.base - 48, Shim.ahRequestedSize P.shim.st.mem (e.ptr - 48)) else none) := by
  obtain ⟨k, hk, hp⟩ := I.placed e he
  obtain ⟨lo, segs, lists, H⟩ := I.inv
  obtain ⟨a, n, t, h⟩ := H.held _ hk
  have hbase : e.base = a + 48 := h.ptr_eq
  have hroom : k + 64 ≤ n := h.room
  have hin := hp.inside
  have hle := hp.base_le
  have h16 := h.formed.addr_aligned
  have hpos : 0 < a := by
    rcases h.place with ⟨-, hg⟩ | ⟨-, hm, -⟩
    · have := (H.rep.tiles.bounds hg).1
      have := H.rep.lo_pos
      simp only at *
      omega
    · exact (H.kernel.placed _ hm).2.1
  have hacc : ∀ {b c}, a ≤ b → b + c ≤ a + n → P.shim.st.deref b c = .ok () := fun h1 h2 =>
    State.deref_pos (H.held_accessible h h1 h2)
  unfold Shim.isAlignedPtr
  cases ha : e.aligned with
  | false =>
    -- the bytes before a plain pointer are the header of its block
    have hptr := hp.plain ha
    have hah : e.ptr - 48 = a := by omega
    have hmagic : Shim.ahMagic P.shim.st.mem (e.ptr - 48) ≠ alignedBlockMagic := by
      rw [hah, show Shim.ahMagic P.shim.st.mem a = magicHeader P.shim.st.mem a from rfl,
        h.formed.magic]
      decide
    rw [if_neg (by omega), if_neg (by omega)]
    simp only
    rw [hacc (by omega) (by omega), ok_bind, if_pos hmagic]
    rfl
  | true =>
    obtain ⟨h48, h8⟩ := hp.apart ha
    have hoff := hp.offset ha
    rw [if_neg (by omega), if_neg (by omega)]
    simp only
    rw [hacc (by omega) (by omega), ok_bind, if_neg (not_not.mpr (hp.magic ha)),
      hacc (by omega) (by omega), ok_bind, hoff, if_neg (by omega), if_neg (by omega)]
    have hreal : e.ptr - (e.ptr - (e.base - 48)) = a := by omega
    rw [hreal, hacc (by omega) (by omega), ok_bind, if_neg (not_not.mpr h.formed.magic),
      hacc (by omega) (by omega), ok_bind]
    simp only [if_true]
    rw [show e.base - 48 = a by omega]

/-- **After a call of the allocator** on `ptr`: the client's allocations are some of the
old ones, whose base blocks the call left alone, and new ones that are in place. -/
theorem of_call {s : Shim} {live live' : List Client} (I : ShimInv ⟨s, live⟩) {st' : State}
    {log' : List Event} {rest : List Alloc} {ptr : Nat}
    (R : CallResult False s.st rest ptr st' (outstanding log'))
    (hrest : ∀ a ∈ rest, a ∈ outstanding s.log)
    (hptr : ptr = 0 ∨ ∃ a ∈ outstanding s.log, a.ptr = ptr) (hrouted : Routed log')
    (hlive : ∀ e ∈ live', (e ∈ live ∧ ∃ a ∈ rest, a.ptr = e.base ∧ a ∈ outstanding log') ∨
      ∃ k, (⟨e.base, k⟩ : Alloc) ∈ outstanding log' ∧ Placed st'.mem e k)
    (hnd : (live'.map Client.base).Nodup) :
    ShimInv ⟨{ s with st := st', log := log' }, live'⟩ := by
  refine ⟨I.idle, R.inv, hrouted, ?_, hnd, ?_⟩
  · intro e he
    rcases hlive e he with ⟨hold, a, ha, hbase, ha'⟩ | hnew
    · obtain ⟨k, hk, hp⟩ := I.placed e hold
      obtain rfl : a = ⟨e.base, k⟩ := I.inv.eq_of_ptr (hrest a ha) hk hbase
      exact ⟨k, ha', hp.congr ((R.payload _ ha).mono Set.inter_subset_left)⟩
    · exact hnew
  · obtain ⟨mp, hmp, h1, h2, hout⟩ := I.segment
    have hop : ptr ≠ mp.addr + 48 := by
      rcases hptr with rfl | ⟨a, ha, rfl⟩
      · omega
      · exact hout a ha
    refine ⟨mp, R.maps mp hmp hop, h1, h2, fun a ha => ?_⟩
    by_cases har : a ∈ rest
    · exact hout a (hrest a har)
    · exact R.fresh mp hmp hop a ha har

/-- A store into one block, that leaves the aligned header in it alone. -/
theorem of_write {s : Shim} {live : List Client} (I : ShimInv ⟨s, live⟩) {a : Alloc}
    (ha : a ∈ outstanding s.log) {m' : Mem} (hm : Set.EqOn m' s.st.mem a.payloadᶜ)
    (hown : ∀ e ∈ live, e.base = a.ptr → ∀ x, x < e.ptr → m' x = s.st.mem x) :
    ShimInv ⟨{ s with st := { s.st with mem := m' } }, live⟩ := by
  obtain ⟨hinv, hothers, -⟩ := I.inv.write ha hm
  refine ⟨I.idle, hinv, I.routed, fun e he => ?_, I.distinct, I.segment⟩
  obtain ⟨k, hk, hp⟩ := I.placed e he
  refine ⟨k, hk, hp.congr ?_⟩
  by_cases hbase : e.base = a.ptr
  · exact fun x hx => hown e he hbase x hx.2
  · exact (hothers _ hk hbase).mono Set.inter_subset_left

/-- The client gives up some of its allocations. -/
theorem of_sublist {s : Shim} {live live' : List Client} (I : ShimInv ⟨s, live⟩)
    (h : live'.Sublist live) : ShimInv ⟨s, live'⟩ :=
  ⟨I.idle, I.inv, I.routed, fun e he => I.placed e (h.subset he), I.distinct.sublist (h.map _),
    I.segment⟩

/-- What a call that may give the client `n` bytes at `p` ends with. -/
structure Gives (s : Shim) (live : List Client) (n p : Nat) (s' : Shim) : Prop where
  inv : ShimInv ⟨s', if p = 0 then live else record s'.log p n :: live⟩
  arena : SameArena s s'
  others : ∀ a ∈ outstanding s.log, Set.EqOn s'.st.mem s.st.mem a.payload
  plain : ∃ new, s'.log = new ++ s.log ∧ handed new = []

/-- A call that fails and changes nothing. -/
theorem gives_null {s : Shim} {live : List Client} (I : ShimInv ⟨s, live⟩) (n : Nat) :
    Gives s live n 0 s :=
  ⟨by rw [if_pos rfl]; exact I, .refl s, fun _ _ _ _ => rfl, [], rfl, rfl⟩

/-- A new base block is nobody's yet. -/
theorem new_base {s : Shim} {live : List Client} (I : ShimInv ⟨s, live⟩) {st' : State} {p k : Nat}
    (h : Inv False st' (⟨p, k⟩ :: outstanding s.log)) : p ∉ live.map Client.base := by
  intro hp
  obtain ⟨e, he, rfl⟩ := List.mem_map.mp hp
  obtain ⟨k', hk', -⟩ := I.placed e he
  exact h.new_ptr hk' rfl

/-- Old allocations after a new block was given. -/
theorem old_after_gain {s : Shim} {live : List Client} (I : ShimInv ⟨s, live⟩) {p k : Nat}
    {e : Client} (he : e ∈ live) : e ∈ live ∧ ∃ a ∈ outstanding s.log, a.ptr = e.base ∧
      a ∈ outstanding (.gave p k :: s.log) := by
  obtain ⟨k', hk', -⟩ := I.placed e he
  exact ⟨he, _, hk', rfl, List.mem_cons_of_mem _ hk'⟩

/-- **A block from `my_malloc` or `my_calloc`**, handed to the client as it is. -/
theorem gives_plain {s : Shim} {live : List Client} (I : ShimInv ⟨s, live⟩) {st' : State}
    {p k n : Nat} (R : CallResult False s.st (outstanding s.log) 0 st'
      (gain p k (outstanding s.log))) (hk : p ≠ 0 → n ≤ k ∧ 0 < k) :
    Gives s live n p { s with st := st', log := if p = 0 then s.log else .gave p k :: s.log } := by
  by_cases hp : p = 0
  · subst hp
    rw [gain_zero] at R
    simp only [if_true]
    refine ⟨?_, I.sameArena R.mapped (Or.inl rfl) _, R.payload, [], rfl, rfl⟩
    rw [if_pos rfl]
    refine I.of_call R (fun _ h => h) (Or.inl rfl) I.routed (fun e he => Or.inl ?_) I.distinct
    obtain ⟨k', hk', -⟩ := I.placed e he
    exact ⟨he, _, hk', rfl, hk'⟩
  · rw [gain_of_ne hp] at R
    simp only [if_neg hp]
    refine ⟨?_, I.sameArena R.mapped (Or.inl rfl) _, R.payload, [.gave p k], rfl, rfl⟩
    rw [if_neg hp]
    refine I.of_call R (fun _ h => h) (Or.inl rfl) I.routed ?_ ?_
    · intro e he
      rcases List.mem_cons.mp he with rfl | he
      · refine Or.inr ⟨k, List.mem_cons_self .., ?_⟩
        exact .of_plain _ p (hk hp).1 (hk hp).2
      · exact Or.inl (I.old_after_gain he)
    · rw [List.map_cons, List.nodup_cons]
      exact ⟨I.new_base R.inv, I.distinct⟩

/-- **A block from `my_malloc`, with an aligned header put into it.** -/
theorem gives_aligned {s : Shim} {live : List Client} (I : ShimInv ⟨s, live⟩) {st' : State}
    {base k aligned reqSize n : Nat} (R : CallResult False s.st (outstanding s.log) 0 st'
      (⟨base, k⟩ :: outstanding s.log)) (h48 : base + 48 ≤ aligned) (h8 : aligned % 8 = 0)
    (hin : aligned < base + k) (hroom : aligned + reqSize ≤ base + k) (hn : n ≤ reqSize) :
    st'.deref (aligned - 48) 24 = .ok () ∧
    Gives s live n aligned { s with
      st := { st' with
        mem := Shim.putAlignedHeader st'.mem (aligned - 48) (aligned - (base - 48)) reqSize }
      log := .placed base aligned :: .gave base k :: s.log } := by
  have hnew : (⟨base, k⟩ : Alloc) ∈ ⟨base, k⟩ :: outstanding s.log := List.mem_cons_self ..
  have hend := R.inv.end_lt
  obtain ⟨hmagic, hoff, hreq, hm⟩ := Shim.putAlignedHeader_spec st'.mem (aligned - 48)
    (aligned - (base - 48)) reqSize (by omega) (by omega)
  have hmp : Set.EqOn (Shim.putAlignedHeader st'.mem (aligned - 48) (aligned - (base - 48)) reqSize)
      st'.mem (⟨base, k⟩ : Alloc).payloadᶜ :=
    hm.mono (Set.compl_subset_compl.mpr (range_subset (by simp only; omega) (by simp only; omega)))
  have R' : CallResult False s.st (outstanding s.log) 0 { st' with
      mem := Shim.putAlignedHeader st'.mem (aligned - 48) (aligned - (base - 48)) reqSize }
      (outstanding (.placed base aligned :: .gave base k :: s.log)) := R.write_new hmp
  refine ⟨?_, ?_, I.sameArena R'.mapped (Or.inl rfl) _, R'.payload,
    [.placed base aligned, .gave base k], rfl, rfl⟩
  · obtain ⟨lo, segs, lists, H⟩ := R.inv
    obtain ⟨a, c, t, h⟩ := H.held _ hnew
    have hptr : base = a + 48 := h.ptr_eq
    have hfit : k + 64 ≤ c := h.room
    exact State.deref_pos (H.held_accessible h (by omega) (by omega))
  · rw [if_neg (by omega)]
    refine I.of_call R' (fun _ h => h) (Or.inl rfl) I.routed ?_ ?_
    · intro e he
      rcases List.mem_cons.mp he with rfl | he
      · refine Or.inr ⟨k, hnew, ?_⟩
        simp only [record]
        refine ⟨by simp only; omega, hin, by simp only; omega, by simp, fun _ => ⟨h48, h8⟩,
          fun _ => hmagic, fun _ => hoff, fun _ => ?_⟩
        simp only [hreq]
        exact ⟨hn, hroom⟩
      · exact Or.inl (I.old_after_gain he)
    · rw [List.map_cons, List.nodup_cons]
      exact ⟨I.new_base R.inv, I.distinct⟩

/-! ## Entry points that give a block -/

section Give
variable {s : Shim} {live : List Client}

/-- **`malloc`.** -/
theorem malloc (I : ShimInv ⟨s, live⟩) (o : Oracle) {n size : Nat} (hn : n ≤ size) :
    ∃ p s', s.malloc o size = .ok (p, s') ∧ Gives s live n p s' ∧
      s'.log = if p = 0 then s.log else .gave p size :: s.log := by
  obtain ⟨p, st', hr, R⟩ := I.inv.myMalloc o size
  have hidle : s.inAllocator = false := I.idle
  have hpos : p ≠ 0 → 0 < size := by
    intro hp
    by_contra h0
    obtain rfl : size = 0 := by omega
    obtain ⟨rfl, -⟩ := Prod.mk.inj (Except.ok.inj hr)
    exact hp rfl
  refine ⟨p, _, ?_, I.gives_plain R fun hp => ⟨hn, hpos hp⟩, rfl⟩
  simp only [Shim.malloc, Shim.callMalloc, hidle, Bool.false_eq_true, if_false, hr, ok_bind]

/-- **`calloc`.** -/
theorem calloc (I : ShimInv ⟨s, live⟩) (o : Oracle) (nmemb size : Nat) :
    ∃ p s', s.calloc o nmemb size = .ok (p, s') ∧ Gives s live (nmemb * size) p s' := by
  obtain ⟨p, st', hr, R⟩ := I.inv.myCalloc o nmemb size
  have hidle : s.inAllocator = false := I.idle
  have hpos : p ≠ 0 → 0 < nmemb * size := by
    intro hp
    by_contra h0
    have hz : nmemb = 0 ∨ size = 0 := Nat.mul_eq_zero.mp (by omega)
    rw [MemoryMonitor.myCalloc, if_pos hz] at hr
    obtain ⟨rfl, -⟩ := Prod.mk.inj (Except.ok.inj hr)
    exact hp rfl
  refine ⟨p, _, ?_, I.gives_plain R fun hp => ⟨le_refl _, hpos hp⟩⟩
  simp only [Shim.calloc, Shim.callCalloc, hidle, Bool.false_eq_true, if_false, hr, ok_bind]

/-- **`aligned_alloc_internal`**: the block is large enough for the header, the padding
and the request. -/
theorem alignedAllocInternal (I : ShimInv ⟨s, live⟩) (o : Oracle)
    {alignment allocSize reqSize n : Nat} (hbit : Shim.OneBit alignment) (h16 : 16 < alignment)
    (hlt : alignment < 2 ^ 64) (hpos : 0 < allocSize) (hreq : reqSize ≤ allocSize)
    (hn : n ≤ reqSize) :
    ∃ p s', s.alignedAllocInternal o alignment allocSize reqSize = .ok (p, s') ∧
      Gives s live n p s' := by
  have hidle : s.inAllocator = false := I.idle
  have hhalf := hbit.le_half (by omega) hlt
  by_cases hover : (2 ^ 65 - 1 - alignment - 48) % 2 ^ 64 < allocSize
  · exact ⟨0, s, by rw [Shim.alignedAllocInternal, if_pos hover], I.gives_null n⟩
  have htotal : addSize (addSize allocSize alignment) 48 = allocSize + alignment + 48 := by
    rw [addSize_of_lt (a := allocSize) (by omega), addSize_of_lt (by omega)]
  obtain ⟨base, st', hr, R⟩ := I.inv.myMalloc o (allocSize + alignment + 48)
  simp only [Shim.alignedAllocInternal, if_neg hover, htotal, hidle, Bool.false_eq_true, if_false,
    Shim.callMalloc, hr, ok_bind]
  by_cases hb : base = 0
  · rw [if_pos hb]
    have hG := I.gives_plain (n := n) R (fun h => absurd hb h)
    rw [hidle] at hG
    subst hb
    exact ⟨0, _, rfl, hG⟩
  simp only [if_neg hb]
  rw [gain_of_ne hb] at R
  have hend := R.inv.end_lt
  obtain ⟨h1, h2, h3⟩ := Shim.alignTo_spec (base + 48) hbit (by omega) hlt (by omega)
  have h8 := Nat.mod_eq_zero_of_dvd ((hbit.dvd (j := 3) hlt (by omega)).trans h3)
  obtain ⟨hd, hG⟩ := I.gives_aligned R h1 h8 (by omega) (by omega) hn
  rw [hidle] at hG
  rw [hd, ok_bind]
  exact ⟨_, _, rfl, hG⟩

/-- **What the entry points for aligned memory rest on**: outcomes `G n p s'` of calls for
`n` bytes that return `p`, which `malloc` and `aligned_alloc_internal` have. -/
structure Serves (s : Shim) (o : Oracle) (G : Nat → Nat → Shim → Prop) : Prop where
  null : ∀ n, G n 0 s
  malloc : ∀ {n size}, n ≤ size → ∃ p s', s.malloc o size = .ok (p, s') ∧ G n p s'
  internal : ∀ {alignment allocSize reqSize n}, Shim.OneBit alignment → 16 < alignment →
    alignment < 2 ^ 64 → 0 < allocSize → reqSize ≤ allocSize → n ≤ reqSize →
    ∃ p s', s.alignedAllocInternal o alignment allocSize reqSize = .ok (p, s') ∧ G n p s'

namespace Serves
variable {o : Oracle} {G : Nat → Nat → Shim → Prop}

theorem mono {G' : Nat → Nat → Shim → Prop} (S : Serves s o G)
    (h : ∀ n p s', G n p s' → G' n p s') : Serves s o G' := by
  refine ⟨fun n => h _ _ _ (S.null n), fun hn => ?_, fun hbit h16 hlt hpos hreq hn => ?_⟩
  · obtain ⟨p, s', hr, hG⟩ := S.malloc hn
    exact ⟨p, s', hr, h _ _ _ hG⟩
  · obtain ⟨p, s', hr, hG⟩ := S.internal hbit h16 hlt hpos hreq hn
    exact ⟨p, s', hr, h _ _ _ hG⟩

/-- **`posix_memalign`**, and what it stores. -/
theorem posixMemalign (S : Serves s o G) {alignment size n : Nat} (hlt : alignment < 2 ^ 64)
    (hn : n ≤ size) : ∃ p s', s.posixMemalign o alignment size = .ok (p, s') ∧ G n p s' := by
  rw [Shim.posixMemalign_eq]
  by_cases hbad : alignment < 8 ∨ ¬ Shim.OneBit alignment
  · exact ⟨0, s, if_pos hbad, S.null n⟩
  rw [if_neg hbad]
  unfold Shim.allocAligned
  simp only [not_or, not_not] at hbad
  have hsize : size ≤ (if size = 0 then alignment else size) ∧
      0 < (if size = 0 then alignment else size) := by
    split <;> omega
  by_cases h16 : alignment ≤ 16
  · simp only [if_pos h16]
    exact S.malloc (hn.trans hsize.1)
  · simp only [if_neg h16]
    exact S.internal hbad.2 (by omega) hlt hsize.2 hsize.1 hn

/-- **`aligned_alloc`.** -/
theorem alignedAlloc (S : Serves s o G) {alignment : Nat} (size : Nat) (hlt : alignment < 2 ^ 64) :
    ∃ p s', s.alignedAlloc o alignment size = .ok (p, s') ∧ G size p s' := by
  unfold Shim.alignedAlloc
  by_cases hbad : alignment = 0 ∨ ¬ Shim.OneBit alignment ∨ size % alignment ≠ 0
  · exact ⟨0, s, if_pos hbad, S.null size⟩
  rw [if_neg hbad]
  simp only [not_or, not_not] at hbad
  by_cases h0 : size = 0
  · exact ⟨0, s, if_pos h0, S.null size⟩
  rw [if_neg h0]
  by_cases h16 : alignment ≤ 16
  · rw [if_pos h16]
    exact S.malloc (le_refl size)
  · rw [if_neg h16]
    exact S.internal hbad.2.1 (by omega) hlt (by omega) (le_refl _) (le_refl _)

/-- **`memalign`.** -/
theorem memalign (S : Serves s o G) {alignment : Nat} (size : Nat) (hlt : alignment < 2 ^ 64) :
    ∃ p s', s.memalign o alignment size = .ok (p, s') ∧ G size p s' := by
  refine S.posixMemalign ?_ (le_refl size)
  split <;> omega

end Serves

/-- The page size fits a `size_t`. -/
theorem pageSize_lt {sysconf : Int} (h : sysconf < 2 ^ 63) :
    0 < Shim.pageSize sysconf ∧ Shim.pageSize sysconf < 2 ^ 64 := by
  unfold Shim.pageSize
  split <;> omega

/-- **Rounding up to whole pages does not wrap** once the guard has passed. -/
theorem pages_eq {size ps : Nat} (hpos : 0 < ps) (hps : ps < 2 ^ 64)
    (h : ¬ 2 ^ 64 - 1 - ps < size) :
    (size + ps - 1) % 2 ^ 64 / ps * ps % 2 ^ 64 = (size + ps - 1) / ps * ps ∧
    size ≤ (size + ps - 1) / ps * ps ∧ (size + ps - 1) / ps * ps ≤ size + ps - 1 := by
  have h1 := Nat.div_mul_le_self (size + ps - 1) ps
  have h2 := Nat.lt_div_mul_add hpos (a := size + ps - 1)
  rw [Nat.mod_eq_of_lt (show size + ps - 1 < 2 ^ 64 by omega), Nat.mod_eq_of_lt (by omega)]
  exact ⟨rfl, by omega, h1⟩

/-- **`valloc`.** -/
theorem Serves.valloc {o : Oracle} {G : Nat → Nat → Shim → Prop} (S : Serves s o G)
    {sysconf : Int} (size : Nat) (hlt : sysconf < 2 ^ 63) :
    ∃ p s', s.valloc o sysconf size = .ok (p, s') ∧ G size p s' :=
  S.posixMemalign (pageSize_lt hlt).2 (le_refl size)

/-- **`pvalloc`** rounds up to whole pages. -/
theorem Serves.pvalloc {o : Oracle} {G : Nat → Nat → Shim → Prop} (S : Serves s o G)
    {sysconf : Int} (size : Nat) (hlt : sysconf < 2 ^ 63) :
    ∃ p s', s.pvalloc o sysconf size = .ok (p, s') ∧ G size p s' := by
  obtain ⟨hpos, hps⟩ := pageSize_lt hlt
  unfold Shim.pvalloc
  simp only
  by_cases h0 : size = 0
  · rw [if_pos h0]
    exact S.posixMemalign hps (by omega)
  rw [if_neg h0]
  by_cases hover : 2 ^ 64 - 1 - Shim.pageSize sysconf < size
  · exact ⟨0, s, if_pos hover, S.null size⟩
  · obtain ⟨heq, hle, -⟩ := pages_eq hpos hps hover
    rw [if_neg hover, heq]
    exact S.posixMemalign hps hle

/-- **Outside the allocator** the entry points give blocks of the heap. -/
theorem serves (I : ShimInv ⟨s, live⟩) (o : Oracle) : Serves s o (Gives s live) := by
  refine ⟨I.gives_null, fun hn => ?_, fun hbit h16 hlt hpos hreq hn => ?_⟩
  · obtain ⟨p, s', hr, hG, -⟩ := I.malloc o hn
    exact ⟨p, s', hr, hG⟩
  · exact I.alignedAllocInternal o hbit h16 hlt hpos hreq hn

end Give

/-! ## Entry points that take a block back -/

section Take
variable {s : Shim} {live : List Client}

theorem mem_without {ptr : Nat} {e : Client} : e ∈ without ptr live ↔ e ∈ live ∧ e.ptr ≠ ptr := by
  unfold without
  rw [List.mem_filter, decide_eq_true_eq]

/-- What is left once `e` is gone has other base blocks. -/
theorem base_ne (I : ShimInv ⟨s, live⟩) {e : Client} (he : e ∈ live) {e' : Client}
    (he' : e' ∈ without e.ptr live) : e'.base ≠ e.base := by
  obtain ⟨h1, h2⟩ := mem_without.mp he'
  intro h
  exact h2 (congrArg Client.ptr (I.eq_of_base h1 he h))

/-- What `free` of the pointer in the block `base` ends with, `live` being the others. -/
structure Frees (s : Shim) (live : List Client) (base : Nat) (s' : Shim) : Prop where
  inv : ShimInv ⟨s', live⟩
  arena : SameArena s s'
  others : ∀ a ∈ outstanding s.log, a.ptr ≠ base → Set.EqOn s'.st.mem s.st.mem a.payload
  log : s'.log = .took base :: s.log

/-- **`my_free`** of a block that is no longer any client's. -/
theorem callFree (I : ShimInv ⟨s, live⟩) (o : Oracle) {a : Alloc} (ha : a ∈ outstanding s.log)
    (hno : ∀ e ∈ live, e.base ≠ a.ptr) :
    ∃ s', s.callFree o a.ptr = .ok s' ∧ Frees s live a.ptr s' := by
  obtain ⟨st', hr, R⟩ := I.inv.free_mem ha o
  refine ⟨_, by rw [Shim.callFree, hr, ok_bind], ?_, I.sameArena R.mapped (Or.inr ⟨a, ha, rfl⟩) _,
    fun b hb hne => R.payload b (mem_forget.mpr ⟨hb, hne⟩), rfl⟩
  refine I.of_call R (fun b hb => (mem_forget.mp hb).1) (Or.inr ⟨a, ha, rfl⟩) ⟨⟨a, ha, rfl⟩, I.routed⟩
    ?_ I.distinct
  intro e he
  obtain ⟨k, hk, -⟩ := I.placed e he
  have hk' : (⟨e.base, k⟩ : Alloc) ∈ forget a.ptr (outstanding s.log) :=
    mem_forget.mpr ⟨hk, hno e he⟩
  exact Or.inl ⟨he, _, hk', rfl, hk'⟩

/-- **`free`** hands the base block of the client's pointer to `my_free`. -/
theorem free (I : ShimInv ⟨s, live⟩) (o : Oracle) {e : Client} (he : e ∈ live) :
    ∃ s', s.free o e.ptr = .ok s' ∧ Frees s (without e.ptr live) e.base s' := by
  obtain ⟨k, hk, hp⟩ := I.placed e he
  have hboot : s.isBootstrapPtr e.ptr = false := I.not_bootstrap hk hp.base_le hp.inside
  have hal := I.isAlignedPtr he
  have h0 : e.base ≠ 0 := I.inv.ptr_ne_zero hk
  have hle := hp.base_le
  have hin := hp.inside
  have I' : ShimInv ⟨s, without e.ptr live⟩ := I.of_sublist List.filter_sublist
  unfold Shim.free
  rw [if_neg (by omega), hboot, hal]
  simp only [Bool.false_eq_true, if_false, ok_bind]
  cases ha : e.aligned with
  | false =>
    have hptr := hp.plain ha
    simp only [Bool.false_eq_true, if_false]
    rw [hptr] at I' ⊢
    refine I'.callFree o hk fun e' he' => ?_
    rw [← hptr] at he'
    exact I.base_ne he he'
  | true =>
    obtain ⟨h48, -⟩ := hp.apart ha
    have hb : e.base - 48 + 48 = e.base := by
      obtain ⟨lo, segs, lists, H⟩ := I.inv
      obtain ⟨a, n, t, h⟩ := H.held _ hk
      have : e.base = a + 48 := h.ptr_eq
      omega
    have hm : Set.EqOn (writeLE s.st.mem (e.ptr - 48) 4 0) s.st.mem
        (⟨e.base, k⟩ : Alloc).payloadᶜ :=
      (writeLE_eqOn _ _ _ _).mono (Set.compl_subset_compl.mpr
        (range_subset (by simp only; omega) (by simp only; omega)))
    have I'' := I'.of_write hk hm fun e' he' hbase => absurd hbase (I.base_ne he he')
    have hboot' : s.isBootstrapPtr e.base = false :=
      I.not_bootstrap hk (le_refl _) (by simp only; omega)
    simp only [if_true, hb]
    rw [show Shim.isBootstrapPtr { s with st := { s.st with
      mem := writeLE s.st.mem (e.ptr - 48) 4 0 } } e.base = s.isBootstrapPtr e.base from rfl, hboot']
    obtain ⟨s', hr, F⟩ := I''.callFree o hk fun e' he' => I.base_ne he he'
    refine ⟨s', hr, F.inv, SameArena.trans ?_ F.arena, fun b hb hne => ?_, F.log⟩
    · exact I.sameArena (I.inv.write_mapped hk hm) (Or.inr ⟨_, hk, rfl⟩) s.log
    · exact (F.others b hb hne).trans ((I.inv.write hk hm).2.1 b hb hne)

/-- What `realloc` of `e` ends with: it hands over the base block of `e`, or fails and
keeps it. -/
structure Takes (s : Shim) (live : List Client) (e : Client) (size q : Nat) (s' : Shim) : Prop where
  inv : ShimInv ⟨s', resized s'.log e.ptr size q live⟩
  arena : SameArena s s'
  contents : q ≠ 0 → ∀ i < min e.size size, s'.st.mem (q + i) = s.st.mem (e.ptr + i)
  handed : ∃ new, s'.log = new ++ s.log ∧ (MemoryMonitor.handed new = [e.base] ∨
    q = 0 ∧ size ≠ 0 ∧ MemoryMonitor.handed new = [])

/-- The allocations other than `e` sit in the blocks other than its base block. -/
theorem others_kept (I : ShimInv ⟨s, live⟩) {e : Client} (he : e ∈ live) {e' : Client}
    (he' : e' ∈ without e.ptr live) :
    e' ∈ live ∧ ∃ b ∈ forget e.base (outstanding s.log), b.ptr = e'.base := by
  obtain ⟨k, hk, -⟩ := I.placed e' (mem_without.mp he').1
  exact ⟨(mem_without.mp he').1, _, mem_forget.mpr ⟨hk, I.base_ne he he'⟩, rfl⟩

theorem without_nodup (I : ShimInv ⟨s, live⟩) (ptr : Nat) :
    ((without ptr live).map Client.base).Nodup :=
  I.distinct.sublist (List.filter_sublist.map _)

section Plain
variable {e : Client} {st' : State} {k size q : Nat}

/-- `my_realloc` has freed the block. -/
theorem of_freed (I : ShimInv ⟨s, live⟩) (he : e ∈ live) (hptr : e.ptr = e.base)
    (hk : (⟨e.base, k⟩ : Alloc) ∈ outstanding s.log)
    (R : CallResult False s.st (forget e.base (outstanding s.log)) e.base st'
      (forget e.base (outstanding s.log))) :
    ShimInv ⟨{ s with st := st', log := .moved e.ptr 0 0 :: s.log }, without e.ptr live⟩ := by
  have hlog : outstanding (.moved e.ptr 0 0 :: s.log) = forget e.base (outstanding s.log) := by
    simp [outstanding, hptr]
  rw [← hlog] at R
  refine I.of_call R (fun b hb => (mem_forget.mp (hlog ▸ hb)).1) (Or.inr ⟨_, hk, rfl⟩)
    ⟨⟨_, hk, hptr.symm⟩, I.routed⟩ (fun e' he' => Or.inl ?_) (I.without_nodup _)
  obtain ⟨h1, b, hb, hbe⟩ := I.others_kept he he'
  rw [← hlog] at hb
  exact ⟨h1, b, hb, hbe, hb⟩

/-- `my_realloc` has failed, and the block is where it was. -/
theorem of_failed (I : ShimInv ⟨s, live⟩) (he : e ∈ live) (ha : e.aligned = false)
    (hk : (⟨e.base, k⟩ : Alloc) ∈ outstanding s.log) (hp : Placed s.st.mem e k) (h0 : size ≠ 0)
    (R : CallResult False s.st (forget e.base (outstanding s.log)) e.base st'
      (⟨e.base, k⟩ :: forget e.base (outstanding s.log))) :
    ShimInv ⟨{ s with st := st', log := .moved e.ptr size 0 :: s.log }, live⟩ := by
  have hlog : outstanding (.moved e.ptr size 0 :: s.log) = outstanding s.log := by
    simp [outstanding, h0]
  have hperm := perm_forget I.inv.nodup hk
  have R' : CallResult False s.st (forget e.base (outstanding s.log)) e.base st'
      (outstanding (.moved e.ptr size 0 :: s.log)) := by
    rw [hlog]
    exact ⟨R.inv.perm hperm.symm, R.payload, R.maps, R.mapped,
      fun mp hmp hne b hb => R.fresh mp hmp hne b (hperm.mem_iff.mp hb)⟩
  refine I.of_call R' (fun b hb => (mem_forget.mp hb).1) (Or.inr ⟨_, hk, rfl⟩)
    ⟨⟨_, hk, (hp.plain ha).symm⟩, I.routed⟩ (fun e' he' => ?_) I.distinct
  rw [hlog]
  by_cases hee : e' = e
  · subst hee
    exact Or.inr ⟨k, hk, { hp with
      magic := fun h => absurd (ha.symm.trans h) (by simp)
      offset := fun h => absurd (ha.symm.trans h) (by simp)
      requested := fun h => absurd (ha.symm.trans h) (by simp) }⟩
  · obtain ⟨h1, b, hb, hbe⟩ := I.others_kept he (mem_without.mpr ⟨he', I.ptr_ne he' he hee⟩)
    exact Or.inl ⟨h1, b, hb, hbe, (mem_forget.mp hb).1⟩

/-- `my_realloc` has given the client a new pointer. -/
theorem of_moved (I : ShimInv ⟨s, live⟩) (he : e ∈ live) (hptr : e.ptr = e.base)
    (hk : (⟨e.base, k⟩ : Alloc) ∈ outstanding s.log) (hpos : 0 < size) (hq : q ≠ 0)
    (R : CallResult False s.st (forget e.base (outstanding s.log)) e.base st'
      (⟨q, size⟩ :: forget e.base (outstanding s.log))) :
    ShimInv ⟨{ s with st := st', log := .moved e.ptr size q :: s.log },
      ⟨q, size, q, false⟩ :: without e.ptr live⟩ := by
  have hlog : outstanding (.moved e.ptr size q :: s.log) =
      ⟨q, size⟩ :: forget e.base (outstanding s.log) := by
    simp [outstanding, hq, hptr]
  have hinv := R.inv
  rw [← hlog] at R
  refine I.of_call R (fun b hb => (mem_forget.mp hb).1) (Or.inr ⟨_, hk, rfl⟩)
    ⟨⟨_, hk, hptr.symm⟩, I.routed⟩ ?_ ?_
  · rw [hlog]
    intro e' he'
    rcases List.mem_cons.mp he' with rfl | he'
    · exact Or.inr ⟨size, List.mem_cons_self .., .of_plain _ q (le_refl _) hpos⟩
    · obtain ⟨h1, b, hb, hbe⟩ := I.others_kept he he'
      exact Or.inl ⟨h1, b, hb, hbe, List.mem_cons_of_mem _ hb⟩
  · rw [List.map_cons, List.nodup_cons]
    refine ⟨fun hmem => ?_, I.without_nodup _⟩
    obtain ⟨e', he', hqe⟩ := List.mem_map.mp hmem
    obtain ⟨-, b, hb, hbe⟩ := I.others_kept he he'
    exact hinv.new_ptr hb (by rw [hbe, hqe])

end Plain

/-- **`my_realloc`** of a plain block. -/
theorem callRealloc (I : ShimInv ⟨s, live⟩) (o : Oracle) {e : Client} (he : e ∈ live)
    (ha : e.aligned = false) (size : Nat) :
    ∃ q s', s.callRealloc o e.ptr size = .ok (q, s') ∧ Takes s live e size q s' := by
  obtain ⟨k, hk, hp⟩ := I.placed e he
  have hptr := hp.plain ha
  have hinv := I.inv.perm (perm_forget I.inv.nodup hk)
  obtain ⟨q, st', hr, R, hcopy⟩ := hinv.myRealloc o size
  have hr : MemoryMonitor.myRealloc s.st o e.ptr size = .ok (q, st') := by
    rw [hptr]
    exact hr
  have hsame : q ≠ 0 → ∀ i < min e.size size, st'.mem (q + i) = s.st.mem (e.ptr + i) := by
    intro hq i hi
    have hroom := hp.room
    rw [hptr] at hroom ⊢
    exact hcopy hq i (by simp only; omega)
  refine ⟨q, { s with st := st', log := .moved e.ptr size q :: s.log },
    by rw [Shim.callRealloc, hr, ok_bind], ?_, I.sameArena R.mapped (Or.inr ⟨_, hk, rfl⟩) _, hsame,
    [.moved e.ptr size q], rfl, Or.inl (by rw [hptr]; rfl)⟩
  unfold MemoryMonitor.afterRealloc at R
  unfold resized
  by_cases hq : q = 0
  · subst hq
    rw [if_neg (not_not.mpr rfl)] at R
    simp only [ne_eq, not_true_eq_false, if_false]
    by_cases h0 : size = 0
    · subst h0
      rw [if_pos rfl] at R ⊢
      exact I.of_freed he hptr hk R
    · rw [if_neg h0] at R ⊢
      exact I.of_failed he ha hk hp h0 R
  · rw [if_pos hq] at R ⊢
    refine I.of_moved he hptr hk ?_ hq R
    by_contra h0
    obtain rfl : size = 0 := by omega
    have h0 : e.ptr ≠ 0 := by
      rw [hptr]
      exact I.inv.ptr_ne_zero hk
    rw [MemoryMonitor.myRealloc, if_neg h0, if_pos rfl] at hr
    obtain ⟨st₁, -, hr⟩ := bind_ok hr
    cases hr
    exact hq rfl

/-- A store into the bytes of one allocation of the client's. -/
theorem store (I : ShimInv ⟨s, live⟩) {e : Client} (he : e ∈ live) {m' : Mem}
    (hm : Set.EqOn m' s.st.mem (range e.ptr e.size)ᶜ) :
    ShimInv ⟨{ s with st := { s.st with mem := m' } }, live⟩ ∧
      SameArena s { s with st := { s.st with mem := m' } } := by
  obtain ⟨k, hk, hp⟩ := I.placed e he
  have hle := hp.base_le
  have hroom := hp.room
  have hm' : Set.EqOn m' s.st.mem (⟨e.base, k⟩ : Alloc).payloadᶜ :=
    hm.mono (Set.compl_subset_compl.mpr (range_subset hle (by simp only; omega)))
  refine ⟨I.of_write hk hm' fun e' he' hbase x hx => ?_,
    I.sameArena (I.inv.write_mapped hk hm') (Or.inr ⟨_, hk, rfl⟩) s.log⟩
  obtain rfl := I.eq_of_base he' he hbase
  refine hm ?_
  rw [Set.mem_compl_iff, mem_range]
  omega

/-- Copying into a new plain block. -/
theorem copy (I : ShimInv ⟨s, live⟩) {p size c : Nat} (from' : Nat)
    (hnew : (⟨p, size, p, false⟩ : Client) ∈ live) (hc : c ≤ size) :
    ShimInv ⟨{ s with st := { s.st with mem := memcpy s.st.mem p from' c } }, live⟩ ∧
      SameArena s { s with st := { s.st with mem := memcpy s.st.mem p from' c } } :=
  I.store hnew ((overwrite_eqOn _ _ _ _).mono (Set.compl_subset_compl.mpr
    (range_subset (le_refl _) (by simp only; omega))))

/-- `copyOver` into a new plain block, from bytes that may be read. -/
theorem copyOver (I : ShimInv ⟨s, live⟩) {p size from' c : Nat}
    (hnew : (⟨p, size, p, false⟩ : Client) ∈ live) (hfrom : s.st.deref from' c = .ok ())
    (hc : c ≤ size) :
    ∃ s', s.copyOver p from' c = .ok s' ∧ ShimInv ⟨s', live⟩ ∧ SameArena s s' ∧ s'.log = s.log ∧
      s'.st.mem = memcpy s.st.mem p from' c := by
  obtain ⟨k, hk, hp⟩ := I.placed _ hnew
  have hroom : p + size ≤ p + k := hp.room
  have hd := I.inv.deref hk (k := c) (by simp only; omega)
  obtain ⟨I', harena⟩ := I.copy from' hnew hc
  exact ⟨_, Shim.copyOver_eq hfrom hd, I', harena, rfl, rfl⟩

/-- **`realloc` of an aligned block**: a plain block takes its place. -/
theorem reallocAligned (I : ShimInv ⟨s, live⟩) (o : Oracle) {e : Client} (he : e ∈ live)
    (ha : e.aligned = true) (size : Nat) :
    ∃ q s', s.reallocAligned o e.ptr size (Shim.ahRequestedSize s.st.mem (e.ptr - 48)) =
      .ok (q, s') ∧ Takes s live e size q s' := by
  unfold Shim.reallocAligned
  by_cases h0 : size = 0
  · obtain ⟨s', hr, F⟩ := I.free o he
    rw [if_pos h0, hr, ok_bind]
    exact ⟨0, s', rfl, by simpa [resized, h0] using F.inv, F.arena, fun h => absurd rfl h,
      [.took e.base], F.log, Or.inl rfl⟩
  rw [if_neg h0]
  obtain ⟨p, s₁, hr, hG, hlog⟩ := I.malloc o (le_refl size)
  rw [hr, ok_bind]
  simp only
  by_cases hp0 : p = 0
  · subst hp0
    rw [if_pos rfl] at hlog ⊢
    have I₁ := hG.inv
    rw [if_pos rfl] at I₁
    exact ⟨0, s₁, rfl, by simpa [resized, h0] using I₁, hG.arena, fun h => absurd rfl h, [], hlog,
      Or.inr ⟨rfl, h0, rfl⟩⟩
  · rw [if_neg hp0] at hlog ⊢
    have I₁ := hG.inv
    rw [if_neg hp0, hlog] at I₁
    simp only [record] at I₁
    have hnew : (⟨p, size, p, false⟩ : Client) ∈ (⟨p, size, p, false⟩ : Client) :: live :=
      List.mem_cons_self ..
    have he₁ : e ∈ (⟨p, size, p, false⟩ : Client) :: live := List.mem_cons_of_mem _ he
    -- the old bytes may still be read
    obtain ⟨k, hk, hpl⟩ := I.placed e he
    have hk₁ : (⟨e.base, k⟩ : Alloc) ∈ outstanding s₁.log := by
      rw [hlog]
      exact List.mem_cons_of_mem _ hk
    have hreq : e.size ≤ Shim.ahRequestedSize s.st.mem (e.ptr - 48) := (hpl.requested ha).1
    have hend := (hpl.requested ha).2
    have hfrom := I₁.inv.deref_within hk₁ (x := e.ptr)
      (k := min (Shim.ahRequestedSize s.st.mem (e.ptr - 48)) size) hpl.base_le
      (by simp only at hend ⊢; omega)
    obtain ⟨s₂, hr₂, I₂, harena₂, hlog₂, hmem₂⟩ := I₁.copyOver hnew hfrom (Nat.min_le_right _ _)
    obtain ⟨s₃, hr₃, F⟩ := I₂.free o he₁
    have I₃ := F.inv
    have hlog₃ := F.log
    rw [hr₂, ok_bind, hr₃, ok_bind]
    have hnd := I₁.distinct
    rw [List.map_cons, List.nodup_cons] at hnd
    have hne : (⟨p, size, p, false⟩ : Client) ≠ e := by
      rintro rfl
      exact hnd.1 (List.mem_map.mpr ⟨_, he, rfl⟩)
    refine ⟨p, s₃, rfl, ?_, (hG.arena.trans harena₂).trans F.arena, fun _ i hi => ?_,
      [.took e.base, .gave p size], ?_, Or.inl rfl⟩
    · have hlive : resized s₃.log e.ptr size p live =
          without e.ptr (⟨p, size, p, false⟩ :: live) := by
        rw [without, List.filter_cons_of_pos (by simpa using I₁.ptr_ne hnew he₁ hne)]
        simp [resized, hp0, hlog₃, record, without]
      rw [hlive]
      exact I₃
    · -- the new block is there when the old one is freed, and the old one during `my_malloc`
      have hp₂ : (⟨p, size⟩ : Alloc) ∈ outstanding s₂.log := by
        rw [hlog₂, hlog]
        exact List.mem_cons_self ..
      have hpe : p ≠ e.base := fun h => hne (I₁.eq_of_base hnew he₁ h)
      have h1 : s₃.st.mem (p + i) = s₂.st.mem (p + i) :=
        F.others _ hp₂ hpe (mem_range.mpr ⟨by simp only; omega, by simp only; omega⟩)
      have h2 : s₁.st.mem (e.ptr + i) = s.st.mem (e.ptr + i) := by
        have hle := hpl.base_le
        have hroom := hpl.room
        exact hG.others _ hk (mem_range.mpr ⟨by simp only; omega, by simp only; omega⟩)
      rw [h1, hmem₂, memcpy, overwrite_of_mem ⟨by omega, by omega⟩, Nat.add_sub_cancel_left, h2]
    · rw [hlog₃, hlog₂, hlog]
      rfl

/-- **`realloc`** of a pointer of the client's. -/
theorem realloc (I : ShimInv ⟨s, live⟩) (o : Oracle) {e : Client} (he : e ∈ live) (size : Nat) :
    ∃ q s', s.realloc o e.ptr size = .ok (q, s') ∧ Takes s live e size q s' := by
  obtain ⟨k, hk, hp⟩ := I.placed e he
  have hidle : s.inAllocator = false := I.idle
  have hboot : s.isBootstrapPtr e.ptr = false := I.not_bootstrap hk hp.base_le hp.inside
  have hal := I.isAlignedPtr he
  have h0 : e.base ≠ 0 := I.inv.ptr_ne_zero hk
  have hle := hp.base_le
  unfold Shim.realloc
  rw [if_neg (by omega), hboot, hal]
  simp only [Bool.false_eq_true, if_false, ok_bind]
  cases ha : e.aligned with
  | true => exact I.reallocAligned o he ha size
  | false =>
    obtain ⟨q, s', hr, T⟩ := I.callRealloc o he ha size
    obtain ⟨⟨q', st'⟩, hm, hr'⟩ := bind_ok hr
    obtain ⟨rfl, rfl⟩ := Prod.mk.inj (Except.ok.inj hr')
    refine ⟨q', _, ?_, T⟩
    simp only [Bool.false_eq_true, if_false, hidle, Shim.callRealloc, hm, ok_bind]

end Take

end ShimInv

end MemoryMonitor
