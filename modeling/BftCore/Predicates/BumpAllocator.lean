import Mathlib
import BftCore.Lib.UInt64

/-!
# `predicates/wasm/wvm/bumpallocator`: the memory of a predicate

The host gives a WebAssembly predicate its memory through a bump allocator: `Alloc(size)`
returns the free pointer and moves it past `size` bytes, rounded up to `Alignment`, growing the
linear memory when the arena is too small; `Free` only counts.  After a failure the allocator
keeps the error and returns it from every later call.

The linear memory is a parameter `mem : Memory M`: its size in bytes, and `Grow` by a number of
pages, which fails or gives the grown memory.  Nothing is assumed of it: a memory that grows by
other than what it was asked, or that the predicate grows between calls, is allowed, since the
allocator checks the size it reads back.

* `alloc_eq_ok`, `alloc_eq_error`, `free_eq_ok`, `free_eq_error`: what one call does;
* `Laid` and `Sticky`: what a run of calls keeps of the blocks handed out and of its failures,
  with their step lemmas;
* `bump_allocator_sound`: the blocks a run hands out lie one after another above the heap base,
  each inside the memory it was handed out of, every one but the first at an aligned address;
  the free pointer never moves back; after a failure every call fails.
-/

namespace BftCore.Predicates

/-- `WasmPageSize`, 64 KiB. -/
def WasmPageSize : UInt32 := 65536

/-- `MaxPages`, the pages of 4 GiB. -/
def MaxPages : UInt32 := 65536

/-- `Alignment`. -/
def Alignment : UInt64 := 8

/-- `math.MaxUint32`. -/
def maxUint32 : UInt64 := 4294967295

/-- `MemInfo`: `Max()`, the page limit of the memory when one is encoded. -/
structure MemInfo where
  max : Option UInt32

/-- `maxPages(info)`. -/
def maxPages (info : MemInfo) : UInt32 :=
  match info.max with
  | some maxPages => maxPages
  | none => MaxPages

/-- `align(addr)`: the next multiple of `Alignment`. -/
def align (addr : UInt64) : UInt64 :=
  ((addr + Alignment - 1) / Alignment) * Alignment

/-- `addrToPage(addr)`: the pages that hold `addr` bytes, rounded up. -/
def addrToPage (addr : UInt64) : Except String UInt32 :=
  let pageNo := (addr + WasmPageSize.toUInt64 - 1) / WasmPageSize.toUInt64
  if pageNo > MaxPages.toUInt64 then .error "out of memory pages" else .ok pageNo.toUInt32

/-- `Memory`, with what the allocator calls: `Size()` in bytes, and `Grow(deltaPages)`, which
fails or gives the grown memory. -/
structure Memory (M : Type) where
  size : M → UInt32
  grow : M → UInt32 → Option M

/-- `statistics`. -/
structure Statistics where
  allocCount : UInt64
  freeCount : UInt64
  allocDataSize : UInt64

/-- `BumpAllocator`. -/
structure BumpAllocator where
  heapBase : UInt32
  freePtr : UInt32
  arenaSize : UInt32
  memPageLimit : UInt32
  stats : Statistics
  errState : Option String

/-- `New(heapBase, info)`. -/
def BumpAllocator.new (heapBase : UInt32) (info : MemInfo) : BumpAllocator :=
  ⟨heapBase, heapBase, 0, maxPages info, ⟨0, 0, 0⟩, none⟩

/-- The allocator and the memory of a call of `Alloc`. -/
structure AllocState (M : Type) where
  allocator : BumpAllocator
  memory : M

namespace BumpAllocator

/-- `b.monitorArenaSize(currentSize)`: the arena may shrink only below the free pointer. -/
def monitorArenaSize (currentSize : UInt32) : EStateM String BumpAllocator Unit := fun b =>
  let arenaSize := b.arenaSize
  if arenaSize > currentSize ∧ b.freePtr > currentSize then
    .error s!"memory arena has shrunk unexpectedly from {arenaSize} to {currentSize}" b
  else .ok () { b with arenaSize := currentSize }

section Calls

variable {M : Type} (mem : Memory M)

/-- The block of `bumpAlloc` that grows the arena to hold `newFreePtr` bytes: to twice its
pages, or to the page limit, and at least to the pages required. -/
def growArena (newFreePtr : UInt64) : EStateM String (AllocState M) Unit := fun s =>
  match addrToPage newFreePtr with
  | .error e => .error s!"memory page allocation error: {e}" s
  | .ok requiredPages =>
    let currentPages := mem.size s.memory / WasmPageSize
    let incPages := max (min (currentPages * 2) s.allocator.memPageLimit) requiredPages
    match mem.grow s.memory (incPages - currentPages) with
    | none => .error s!"linear memory grow error: from {currentPages} pages to {incPages} pages" s
    | some m =>
      let arenaSize := mem.size m
      let s' : AllocState M := ⟨{ s.allocator with arenaSize }, m⟩
      -- the validation check of the pages the memory reports
      if arenaSize / WasmPageSize ≠ incPages then
        .error s!"number of pages should have increased! previous: {currentPages}, desired: {incPages}" s'
      else .ok () s'

/-- `b.bumpAlloc(size, mem)`. -/
def bumpAlloc (size : UInt32) : EStateM String (AllocState M) UInt32 := fun s =>
  let newFreePtr := align (s.allocator.freePtr.toUInt64 + size.toUInt64)
  if newFreePtr > maxUint32 then .error "out of memory" s
  else
    match (if s.allocator.arenaSize.toUInt64 < newFreePtr then growArena mem newFreePtr
           else pure ()) s with
    | .error e s' => .error e s'
    | .ok () s' =>
      let b := s'.allocator
      .ok b.freePtr
        ⟨{ b with
            stats := { b.stats with
              allocCount := b.stats.allocCount + 1
              allocDataSize := b.stats.allocDataSize + size.toUInt64 }
            freePtr := newFreePtr.toUInt32 }, s'.memory⟩

/-- `b.Alloc(mem, size)`: an error puts the allocator in the error state. -/
def alloc (size : UInt32) : EStateM String (AllocState M) UInt32 := fun s =>
  match s.allocator.errState with
  | some e => .error e s
  | none =>
    match monitorArenaSize (mem.size s.memory) s.allocator with
    | .error e b => .error e ⟨{ b with errState := some e }, s.memory⟩
    | .ok () b =>
      match bumpAlloc mem size ⟨b, s.memory⟩ with
      | .ok p s' => .ok p s'
      | .error e s' => .error e { s' with allocator := { s'.allocator with errState := some e } }

end Calls

/-- `b.Free(mem, ptr)`: nothing is freed. -/
def free : EStateM String BumpAllocator Unit := fun b =>
  match b.errState with
  | some e => .error e b
  | none => .ok () { b with stats := { b.stats with freeCount := b.stats.freeCount + 1 } }

/-! ### What one call does -/

theorem align_toNat {x : UInt64} (hx : x.toNat < 2 ^ 33) :
    (align x).toNat = (x.toNat + 7) / 8 * 8 := by
  unfold align Alignment
  have h₁ : (x + 8).toNat = x.toNat + 8 := by
    rw [UInt64.toNat_add]
    simp only [UInt64.reduceToNat, Nat.reducePow]
    omega
  have h₂ : (x + 8 - 1).toNat = x.toNat + 7 := by
    rw [UInt64.toNat_sub_of_le _ _ (by rw [UInt64.le_iff_toNat_le, h₁]; simp), h₁]
    simp
  rw [UInt64.toNat_mul, UInt64.toNat_div, h₂]
  simp only [UInt64.reduceToNat, Nat.reducePow]
  omega

/-- The pages `addrToPage` returns hold the address. -/
theorem addrToPage_eq_ok {addr : UInt64} {pages : UInt32} (haddr : addr ≤ maxUint32)
    (h : addrToPage addr = .ok pages) : addr.toNat ≤ pages.toNat * 65536 := by
  have hmax : maxUint32.toNat = 4294967295 := rfl
  rw [UInt64.le_iff_toNat_le, hmax] at haddr
  have hw : WasmPageSize.toUInt64 = 65536 := rfl
  unfold addrToPage at h
  rw [hw] at h
  dsimp only at h
  split at h
  · cases h
  · cases h
    have hadd : (addr + 65536).toNat = addr.toNat + 65536 := by
      rw [UInt64.toNat_add]
      simp only [UInt64.reduceToNat, Nat.reducePow]
      omega
    have hsum : (addr + 65536 - 1).toNat = addr.toNat + 65535 := by
      rw [UInt64.toNat_sub_of_le _ _ (by rw [UInt64.le_iff_toNat_le, hadd]; simp), hadd]
      simp
    simp only [UInt64.toNat_toUInt32, UInt64.toNat_div, hsum, UInt64.reduceToNat]
    omega

variable {M : Type} {mem : Memory M}

theorem monitorArenaSize_eq_ok {c : UInt32} {b b' : BumpAllocator}
    (h : monitorArenaSize c b = .ok () b') : b' = { b with arenaSize := c } := by
  unfold monitorArenaSize at h
  dsimp only at h
  split at h
  · cases h
  · cases h; rfl

theorem monitorArenaSize_eq_error {c : UInt32} {b b' : BumpAllocator} {e : String}
    (h : monitorArenaSize c b = .error e b') : b' = b := by
  unfold monitorArenaSize at h
  dsimp only at h
  split at h
  · cases h; rfl
  · cases h

/-- A grown arena holds the address it was grown for; only its size is recorded. -/
theorem growArena_eq_ok {p : UInt64} {s s' : AllocState M} (hp : p ≤ maxUint32)
    (h : growArena mem p s = .ok () s') :
    s'.allocator = { s.allocator with arenaSize := mem.size s'.memory } ∧
      p.toNat ≤ (mem.size s'.memory).toNat := by
  unfold growArena at h
  split at h
  · cases h
  · rename_i requiredPages hreq
    dsimp only at h
    split at h
    · cases h
    · split at h
      · cases h
      · rename_i m _ hpages
        cases h
        refine ⟨rfl, ?_⟩
        -- the memory reports the pages asked for, which are at least those required
        have hreq' := addrToPage_eq_ok hp hreq
        have hinc := congrArg UInt32.toNat (not_not.mp hpages)
        have hmax := UInt32.le_iff_toNat_le.mp
          (UInt32.le_max_right (min (mem.size s.memory / WasmPageSize * 2) s.allocator.memPageLimit)
            requiredPages)
        have hw : WasmPageSize.toNat = 65536 := rfl
        rw [UInt32.toNat_div, hw] at hinc
        dsimp only
        omega

theorem growArena_eq_error {p : UInt64} {s s' : AllocState M} {e : String}
    (h : growArena mem p s = .error e s') : ∃ a, s'.allocator = { s.allocator with arenaSize := a } := by
  unfold growArena at h
  split at h
  · cases h
    exact ⟨s.allocator.arenaSize, rfl⟩
  · dsimp only at h
    split at h
    · cases h
      exact ⟨s.allocator.arenaSize, rfl⟩
    · split at h
      · cases h
        exact ⟨_, rfl⟩
      · cases h

/-- A block handed out by `bumpAlloc` starts at the free pointer, which moves past it to the
next aligned address, inside the memory when the arena was the memory's size. -/
theorem bumpAlloc_eq_ok {size p : UInt32} {s s' : AllocState M}
    (ha : s.allocator.arenaSize = mem.size s.memory) (h : bumpAlloc mem size s = .ok p s') :
    p = s.allocator.freePtr ∧
      s'.allocator.freePtr.toNat = (p.toNat + size.toNat + 7) / 8 * 8 ∧
      s'.allocator.freePtr.toNat ≤ (mem.size s'.memory).toNat ∧
      s'.allocator.heapBase = s.allocator.heapBase ∧ s'.allocator.errState = s.allocator.errState := by
  unfold bumpAlloc at h
  dsimp only at h
  split at h
  · cases h
  · rename_i hfits
    have hfits' : align (s.allocator.freePtr.toUInt64 + size.toUInt64) ≤ maxUint32 :=
      UInt64.not_lt.mp hfits
    split at h
    · cases h
    · rename_i s₁ hgrow
      cases h
      -- the arena, grown or not, holds the new free pointer; nothing else of the allocator moves
      have hs₁ : s₁.allocator.freePtr = s.allocator.freePtr ∧
          s₁.allocator.heapBase = s.allocator.heapBase ∧
          s₁.allocator.errState = s.allocator.errState ∧
          (align (s.allocator.freePtr.toUInt64 + size.toUInt64)).toNat ≤ (mem.size s₁.memory).toNat := by
        split at hgrow
        · obtain ⟨hb, hsize⟩ := growArena_eq_ok hfits' hgrow
          rw [hb]
          exact ⟨rfl, rfl, rfl, hsize⟩
        · rename_i hno
          cases hgrow
          rw [← ha]
          exact ⟨rfl, rfl, rfl, by simpa [UInt64.lt_iff_toNat_lt] using hno⟩
      obtain ⟨hfree, hbase, herr, hsize⟩ := hs₁
      have hsum : (s.allocator.freePtr.toUInt64 + size.toUInt64).toNat =
          s.allocator.freePtr.toNat + size.toNat := by
        have := s.allocator.freePtr.toNat_lt
        have := size.toNat_lt
        rw [UInt64.toNat_add]
        simp only [UInt32.toNat_toUInt64]
        omega
      have halign := align_toNat (x := s.allocator.freePtr.toUInt64 + size.toUInt64)
        (by rw [hsum]; have := s.allocator.freePtr.toNat_lt; have := size.toNat_lt; omega)
      have hmax : maxUint32.toNat = 4294967295 := rfl
      rw [UInt64.le_iff_toNat_le, hmax] at hfits'
      refine ⟨hfree, ?_, ?_, hbase, herr⟩
      · simp only [UInt64.toNat_toUInt32, hfree]
        omega
      · simp only [UInt64.toNat_toUInt32]
        omega

theorem bumpAlloc_eq_error {size : UInt32} {s s' : AllocState M} {e : String}
    (h : bumpAlloc mem size s = .error e s') :
    s'.allocator.freePtr = s.allocator.freePtr ∧ s'.allocator.heapBase = s.allocator.heapBase := by
  unfold bumpAlloc at h
  dsimp only at h
  split at h
  · cases h
    exact ⟨rfl, rfl⟩
  · split at h
    · rename_i e' s₁ hgrow
      cases h
      split at hgrow
      · obtain ⟨a, ha⟩ := growArena_eq_error hgrow
        rw [ha]
        exact ⟨rfl, rfl⟩
      · cases hgrow
    · cases h

/-- A block `Alloc` hands out starts at the free pointer, which moves past it to the next
aligned address inside the memory; nothing else of the allocator moves. -/
theorem alloc_eq_ok {size p : UInt32} {s s' : AllocState M} (h : alloc mem size s = .ok p s') :
    s.allocator.errState = none ∧ p = s.allocator.freePtr ∧
      s'.allocator.freePtr.toNat = (p.toNat + size.toNat + 7) / 8 * 8 ∧
      s'.allocator.freePtr.toNat ≤ (mem.size s'.memory).toNat ∧
      s'.allocator.heapBase = s.allocator.heapBase ∧ s'.allocator.errState = none := by
  unfold alloc at h
  split at h
  · cases h
  · rename_i herr
    split at h
    · cases h
    · rename_i b hmon
      have hb := monitorArenaSize_eq_ok hmon
      split at h
      · rename_i s₁ hbump
        cases h
        -- the monitor has just set the arena to the size of the memory
        obtain ⟨hp, hfree, hsize, hbase, herr'⟩ := bumpAlloc_eq_ok (by rw [hb]) hbump
        subst hb
        exact ⟨herr, hp, hfree, hsize, hbase, herr'.trans herr⟩
      · cases h

/-- A failed `Alloc` leaves the allocator in the error state, with its free pointer. -/
theorem alloc_eq_error {size : UInt32} {s s' : AllocState M} {e : String}
    (h : alloc mem size s = .error e s') :
    s'.allocator.errState.isSome ∧ s'.allocator.freePtr = s.allocator.freePtr ∧
      s'.allocator.heapBase = s.allocator.heapBase := by
  unfold alloc at h
  split at h
  · rename_i e' herr
    cases h
    exact ⟨by rw [herr]; rfl, rfl, rfl⟩
  · split at h
    · rename_i hmon
      cases h
      rw [monitorArenaSize_eq_error hmon]
      exact ⟨rfl, rfl, rfl⟩
    · rename_i b hmon
      split at h
      · cases h
      · rename_i s₁ hbump
        cases h
        obtain ⟨hfree, hbase⟩ := bumpAlloc_eq_error hbump
        rw [monitorArenaSize_eq_ok hmon] at hfree hbase
        exact ⟨rfl, hfree, hbase⟩

theorem free_eq_ok {b b' : BumpAllocator} (h : free b = .ok () b') :
    b.errState = none ∧ b'.freePtr = b.freePtr ∧ b'.heapBase = b.heapBase ∧ b'.errState = none := by
  unfold free at h
  split at h
  · cases h
  · rename_i herr
    cases h
    exact ⟨herr, rfl, rfl, herr⟩

theorem free_eq_error {b b' : BumpAllocator} {e : String} (h : free b = .error e b') :
    b.errState.isSome ∧ b' = b := by
  unfold free at h
  split at h
  · rename_i e' herr
    cases h
    exact ⟨by rw [herr]; rfl, rfl⟩
  · cases h

/-- In the error state `Alloc` returns the error and changes nothing. -/
theorem alloc_of_errState {size : UInt32} {s : AllocState M} {e : String}
    (h : s.allocator.errState = some e) : alloc mem size s = .error e s := by
  unfold alloc
  rw [h]

theorem free_of_errState {b : BumpAllocator} {e : String} (h : b.errState = some e) :
    free b = .error e b := by
  unfold free
  rw [h]

end BumpAllocator

/-! ### Runs -/

/-- A call of the host: `Alloc(size)`, given the memory the predicate has then, or `Free`. -/
inductive Call (M : Type) where
  | alloc (memory : M) (size : UInt32)
  | free

/-- A block handed out: its address, its size, and the size of the memory it was handed out
of. -/
structure Allocation where
  ptr : UInt32
  size : UInt32
  memSize : UInt32

/-- What a call returned. -/
inductive Outcome where
  | allocated (a : Allocation)
  | freed
  | failed (e : String)

/-- Whether a call returned an error. -/
def Outcome.isFailed : Outcome → Bool
  | .failed _ => true
  | _ => false

/-- The block a call handed out. -/
def Outcome.allocation? : Outcome → Option Allocation
  | .allocated a => some a
  | _ => none

/-- The blocks handed out, in order. -/
def allocations (os : List Outcome) : List Allocation := os.filterMap Outcome.allocation?

section Run

variable {M : Type} (mem : Memory M)

/-- One call, from the allocator `b`. -/
def step (b : BumpAllocator) : Call M → Outcome × BumpAllocator
  | .alloc m size =>
    match BumpAllocator.alloc mem size ⟨b, m⟩ with
    | .ok ptr s => (.allocated ⟨ptr, size, mem.size s.memory⟩, s.allocator)
    | .error e s => (.failed e, s.allocator)
  | .free =>
    match BumpAllocator.free b with
    | .ok () b' => (.freed, b')
    | .error e b' => (.failed e, b')

/-- Calls in turn: what each returned, and the allocator they leave. -/
def run (b : BumpAllocator) : List (Call M) → List Outcome × BumpAllocator
  | [] => ([], b)
  | c :: cs =>
    let r := step mem b c
    let rs := run r.2 cs
    (r.1 :: rs.1, rs.2)

@[simp] theorem run_nil (b : BumpAllocator) : run mem b [] = ([], b) := rfl

@[simp] theorem run_cons (b : BumpAllocator) (c : Call M) (cs : List (Call M)) :
    run mem b (c :: cs) =
      ((step mem b c).1 :: (run mem (step mem b c).2 cs).1, (run mem (step mem b c).2 cs).2) := rfl

theorem run_append (b : BumpAllocator) (cs ds : List (Call M)) :
    run mem b (cs ++ ds) =
      ((run mem b cs).1 ++ (run mem (run mem b cs).2 ds).1, (run mem (run mem b cs).2 ds).2) := by
  induction cs generalizing b with
  | nil => rfl
  | cons c cs ih => simp [ih]

@[simp] theorem allocations_cons (o : Outcome) (os : List Outcome) :
    allocations (o :: os) = o.allocation?.toList ++ allocations os := by
  cases h : o.allocation? <;> simp [allocations, h]

variable {mem}

/-! ### The blocks handed out -/

/-- What a run from the heap base `heapBase` keeps of the blocks `as` it handed out: the
allocator keeps its base, and its free pointer is at or above the base and past every block;
each block ends before the next starts, which makes them disjoint, and lies above the base and
inside the memory it was handed out of; every block but the first is aligned, and so is the
free pointer once a block has been handed out. -/
structure Laid (heapBase : UInt32) (b : BumpAllocator) (as : List Allocation) : Prop where
  heapBase_eq : b.heapBase = heapBase
  base_le : heapBase.toNat ≤ b.freePtr.toNat
  ordered : as.Pairwise fun a a' => a.ptr.toNat + a.size.toNat ≤ a'.ptr.toNat
  inside : ∀ a ∈ as, heapBase.toNat ≤ a.ptr.toNat ∧ a.ptr.toNat + a.size.toNat ≤ a.memSize.toNat
  below : ∀ a ∈ as, a.ptr.toNat + a.size.toNat ≤ b.freePtr.toNat
  aligned : ∀ a ∈ as.tail, a.ptr.toNat % 8 = 0
  freePtr_aligned : as ≠ [] → b.freePtr.toNat % 8 = 0

theorem Laid.new (heapBase : UInt32) (info : MemInfo) :
    Laid heapBase (BumpAllocator.new heapBase info) [] :=
  ⟨rfl, Nat.le_refl _, .nil, by simp, by simp, by simp, fun h => absurd rfl h⟩

/-- A call that hands out nothing and moves neither the base nor the free pointer. -/
theorem Laid.of_frame {heapBase : UInt32} {b b' : BumpAllocator} {as : List Allocation}
    (h : Laid heapBase b as) (hfree : b'.freePtr = b.freePtr) (hbase : b'.heapBase = b.heapBase) :
    Laid heapBase b' as :=
  ⟨hbase.trans h.heapBase_eq, hfree ▸ h.base_le, h.ordered, h.inside, hfree ▸ h.below, h.aligned,
    hfree ▸ h.freePtr_aligned⟩

/-- A block handed out at the free pointer, which moves past it to an aligned address. -/
theorem Laid.push {heapBase : UInt32} {b b' : BumpAllocator} {as : List Allocation}
    {a : Allocation} (h : Laid heapBase b as) (hptr : a.ptr = b.freePtr)
    (hend : a.ptr.toNat + a.size.toNat ≤ b'.freePtr.toNat)
    (hmem : a.ptr.toNat + a.size.toNat ≤ a.memSize.toNat) (haligned : b'.freePtr.toNat % 8 = 0)
    (hbase : b'.heapBase = b.heapBase) : Laid heapBase b' (as ++ [a]) := by
  obtain ⟨hbase₀, hle, hord, hin, hbelow, hal, hfal⟩ := h
  have hptr' : a.ptr.toNat = b.freePtr.toNat := congrArg UInt32.toNat hptr
  have hmove : b.freePtr.toNat ≤ b'.freePtr.toNat := by omega
  refine ⟨hbase.trans hbase₀, by omega, ?_, ?_, ?_, ?_, fun _ => haligned⟩
  · -- every earlier block ends at or below the free pointer, where the new one starts
    refine List.pairwise_append.mpr ⟨hord, List.pairwise_singleton _ _, fun x hx y hy => ?_⟩
    rw [List.mem_singleton.mp hy, hptr]
    exact hbelow x hx
  · intro x hx
    rcases List.mem_append.mp hx with hx | hx
    · exact hin x hx
    · rw [List.mem_singleton.mp hx, hptr]
      exact ⟨hle, hptr ▸ hmem⟩
  · intro x hx
    rcases List.mem_append.mp hx with hx | hx
    · exact Nat.le_trans (hbelow x hx) hmove
    · rw [List.mem_singleton.mp hx]
      exact hend
  · -- the new block is the first, or it starts at the aligned free pointer
    intro x hx
    cases as with
    | nil => simp at hx
    | cons a₀ as =>
      rcases List.mem_append.mp hx with hx | hx
      · exact hal x hx
      · rw [List.mem_singleton.mp hx, hptr]
        exact hfal (List.cons_ne_nil _ _)

/-- The step: a call keeps what the run keeps of its blocks. -/
theorem Laid.step {heapBase : UInt32} {b : BumpAllocator} {as : List Allocation}
    (h : Laid heapBase b as) (c : Call M) :
    Laid heapBase (step mem b c).2 (as ++ (step mem b c).1.allocation?.toList) := by
  cases c with
  | alloc m size =>
    dsimp only [BftCore.Predicates.step]
    split
    · rename_i p s' halloc
      obtain ⟨-, hp, hfree, hsize, hbase, -⟩ := BumpAllocator.alloc_eq_ok halloc
      dsimp only [Outcome.allocation?, Option.toList]
      -- the new free pointer is the end of the block rounded up to a multiple of eight
      exact h.push hp (by dsimp only; omega) (by dsimp only; omega) (by omega) hbase
    · rename_i e s' halloc
      obtain ⟨-, hfree, hbase⟩ := BumpAllocator.alloc_eq_error halloc
      simpa [Outcome.allocation?] using h.of_frame hfree hbase
  | free =>
    dsimp only [BftCore.Predicates.step]
    split
    · rename_i b' hfree
      obtain ⟨-, hptr, hbase, -⟩ := BumpAllocator.free_eq_ok hfree
      simpa [Outcome.allocation?] using h.of_frame hptr hbase
    · rename_i e b' hfree
      obtain ⟨-, rfl⟩ := BumpAllocator.free_eq_error hfree
      simpa [Outcome.allocation?] using h

/-- The run: calls keep what the run keeps of its blocks. -/
theorem Laid.run {heapBase : UInt32} :
    ∀ (cs : List (Call M)) {b : BumpAllocator} {as : List Allocation}, Laid heapBase b as →
      Laid heapBase (run mem b cs).2 (as ++ allocations (run mem b cs).1)
  | [], _, _, h => by simpa [allocations] using h
  | c :: cs, _, _, h => by
    simpa [List.append_assoc] using Laid.run cs (h.step c)

/-- A call never moves the free pointer back. -/
theorem step_freePtr_le (b : BumpAllocator) (c : Call M) :
    b.freePtr.toNat ≤ (step mem b c).2.freePtr.toNat := by
  cases c with
  | alloc m size =>
    dsimp only [step]
    split
    · rename_i p s' halloc
      obtain ⟨-, hp, hfree, -⟩ := BumpAllocator.alloc_eq_ok halloc
      have hp' : p.toNat = b.freePtr.toNat := congrArg UInt32.toNat hp
      dsimp only at hfree ⊢
      omega
    · rename_i e s' halloc
      exact Nat.le_of_eq (congrArg UInt32.toNat (BumpAllocator.alloc_eq_error halloc).2.1).symm
  | free =>
    dsimp only [step]
    split
    · rename_i b' hfree
      exact Nat.le_of_eq (congrArg UInt32.toNat (BumpAllocator.free_eq_ok hfree).2.1).symm
    · rename_i e b' hfree
      exact Nat.le_of_eq
        (congrArg (fun b => b.freePtr.toNat) (BumpAllocator.free_eq_error hfree).2).symm

theorem run_freePtr_le :
    ∀ (b : BumpAllocator) (cs : List (Call M)), b.freePtr.toNat ≤ (run mem b cs).2.freePtr.toNat
  | _, [] => Nat.le_refl _
  | b, c :: cs => Nat.le_trans (step_freePtr_le b c) (run_freePtr_le _ cs)

/-! ### Failures -/

/-- A call that failed leaves the allocator in the error state. -/
theorem step_failed {b : BumpAllocator} {c : Call M} (h : (step mem b c).1.isFailed = true) :
    (step mem b c).2.errState.isSome := by
  cases c with
  | alloc m size =>
    dsimp only [step] at h ⊢
    split at h
    · simp [Outcome.isFailed] at h
    · rename_i e s' halloc
      exact (BumpAllocator.alloc_eq_error halloc).1
  | free =>
    dsimp only [step] at h ⊢
    split at h
    · simp [Outcome.isFailed] at h
    · rename_i e b' hfree
      obtain ⟨herr, rfl⟩ := BumpAllocator.free_eq_error hfree
      exact herr

/-- In the error state every call fails and changes nothing. -/
theorem step_of_errState {b : BumpAllocator} (h : b.errState.isSome) (c : Call M) :
    (step mem b c).1.isFailed = true ∧ (step mem b c).2 = b := by
  obtain ⟨e, he⟩ := Option.isSome_iff_exists.mp h
  cases c with
  | alloc m size =>
    have halloc : BumpAllocator.alloc mem size ⟨b, m⟩ = .error e ⟨b, m⟩ :=
      BumpAllocator.alloc_of_errState he
    simp [step, halloc, Outcome.isFailed]
  | free => simp [step, BumpAllocator.free_of_errState he, Outcome.isFailed]

/-- What a run keeps of its failures: the calls that succeeded come before those that failed,
and after a failure the allocator is in the error state. -/
def Sticky (b : BumpAllocator) (os : List Outcome) : Prop :=
  ∃ ok failed, os = ok ++ failed ∧ (∀ o ∈ ok, o.isFailed = false) ∧
    (∀ o ∈ failed, o.isFailed = true) ∧ (failed ≠ [] → b.errState.isSome)

theorem Sticky.new (heapBase : UInt32) (info : MemInfo) :
    Sticky (BumpAllocator.new heapBase info) [] :=
  ⟨[], [], rfl, by simp, by simp, fun h => absurd rfl h⟩

/-- The step: a call after a failure fails; one after successes may succeed or fail. -/
theorem Sticky.step {b : BumpAllocator} {os : List Outcome} (h : Sticky b os) (c : Call M) :
    Sticky (step mem b c).2 (os ++ [(step mem b c).1]) := by
  obtain ⟨ok, failed, rfl, hok, hfailed, herr⟩ := h
  by_cases hnil : failed = []
  · subst hnil
    by_cases hf : (Predicates.step mem b c).1.isFailed = true
    · exact ⟨ok, [(Predicates.step mem b c).1], by simp, hok, by simpa using hf,
        fun _ => step_failed hf⟩
    · refine ⟨ok ++ [(Predicates.step mem b c).1], [], by simp, ?_, by simp, fun h => absurd rfl h⟩
      intro o ho
      rcases List.mem_append.mp ho with ho | ho
      · exact hok o ho
      · rw [List.mem_singleton.mp ho]
        simpa using hf
  · obtain ⟨hf, hb⟩ := step_of_errState (herr hnil) c
    refine ⟨ok, failed ++ [(Predicates.step mem b c).1], by simp, hok, ?_, fun _ => by rw [hb]; exact herr hnil⟩
    intro o ho
    rcases List.mem_append.mp ho with ho | ho
    · exact hfailed o ho
    · rw [List.mem_singleton.mp ho]
      exact hf

theorem Sticky.run :
    ∀ (cs : List (Call M)) {b : BumpAllocator} {os : List Outcome}, Sticky b os →
      Sticky (run mem b cs).2 (os ++ (run mem b cs).1)
  | [], _, _, h => by simpa using h
  | c :: cs, _, _, h => by
    simpa [List.append_assoc] using Sticky.run cs (h.step c)

end Run

/-- Whatever memory each `Alloc` is given, a run of `Alloc` and `Free` calls on a new bump
allocator hands out blocks each of which ends before the next starts (so they are disjoint),
each at or above the heap base and inside the memory it was handed out of, and every one but
the first at a multiple of eight; the free pointer, a `uint32`, never moves back; and the calls
that failed come after all those that succeeded. -/
theorem bump_allocator_sound {M : Type} (mem : Memory M) (heapBase : UInt32) (info : MemInfo)
    (calls : List (Call M)) :
    (allocations (run mem (BumpAllocator.new heapBase info) calls).1).Pairwise
        (fun a a' => a.ptr.toNat + a.size.toNat ≤ a'.ptr.toNat) ∧
    (∀ a ∈ allocations (run mem (BumpAllocator.new heapBase info) calls).1,
        heapBase.toNat ≤ a.ptr.toNat ∧ a.ptr.toNat + a.size.toNat ≤ a.memSize.toNat) ∧
    (∀ a ∈ (allocations (run mem (BumpAllocator.new heapBase info) calls).1).tail,
        a.ptr.toNat % 8 = 0) ∧
    (∀ pre post, calls = pre ++ post →
        (run mem (BumpAllocator.new heapBase info) pre).2.freePtr.toNat ≤
          (run mem (BumpAllocator.new heapBase info) calls).2.freePtr.toNat) ∧
    ∃ ok failed, (run mem (BumpAllocator.new heapBase info) calls).1 = ok ++ failed ∧
      (∀ o ∈ ok, o.isFailed = false) ∧ ∀ o ∈ failed, o.isFailed = true := by
  have hlaid : Laid heapBase (run mem (BumpAllocator.new heapBase info) calls).2
      ([] ++ allocations (run mem (BumpAllocator.new heapBase info) calls).1) :=
    (Laid.new heapBase info).run calls
  have hsticky : Sticky (run mem (BumpAllocator.new heapBase info) calls).2
      ([] ++ (run mem (BumpAllocator.new heapBase info) calls).1) :=
    (Sticky.new heapBase info).run calls
  rw [List.nil_append] at hlaid hsticky
  obtain ⟨ok, failed, hos, hok, hfailed, -⟩ := hsticky
  refine ⟨hlaid.ordered, hlaid.inside, hlaid.aligned, fun pre post hcalls => ?_,
    ok, failed, hos, hok, hfailed⟩
  -- the calls after `pre` start from the allocator `pre` leaves
  rw [hcalls, run_append]
  exact run_freePtr_le _ post

end BftCore.Predicates
