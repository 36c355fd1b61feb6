import MyOs.Userprog.Process
import Mathlib.Data.Set.BooleanAlgebra
import Mathlib.Order.CompletePartialOrder
import Mathlib.Order.Interval.Set.Basic

/-!
# kernel/memory.c: mem_pool_init

The page counts pass through `uint16_t`, a halving, a division by eight and products with 4096 before
they are addresses.  `memPoolInit_sizes` says what the lengths are; the layout follows from it.

    memPoolInit_disjoint     pools and bitmaps do not overlap, whatever the size of memory
    memPoolInit_usesAll_iff  the two pools manage the free memory exactly when there are fewer than 2^16
                             free pages
-/

namespace MyOs

/-! ## Where things are -/

/-- The three bitmaps that `mem_pool_init` places. -/
inductive BitmapId where
  | kernelPool
  | userPool
  | kernelVaddr
  deriving DecidableEq, Repr

/-- The `bits` pointer that `mem_pool_init` stores in a bitmap. -/
def PoolLayout.bits (l : PoolLayout) : BitmapId → Nat
  | .kernelPool => MEM_BITMAP_BASE
  | .userPool => (MEM_BITMAP_BASE + l.kbmLength) % 2 ^ 32
  | .kernelVaddr => (MEM_BITMAP_BASE + l.kbmLength + l.ubmLength) % 2 ^ 32

def Vm.bitmap (s : Vm) : BitmapId → Bitmap
  | .kernelPool => s.kernelPool.poolBitmap
  | .userPool => s.userPool.poolBitmap
  | .kernelVaddr => s.kernelVaddr.vaddrBitmap

/-- The bytes a bitmap occupies once `mem_pool_init(allMem)` has led to `s`. -/
def Vm.bitmapBytes (s : Vm) (allMem : Nat) (id : BitmapId) : Set Nat :=
  Set.Ico ((poolLayout allMem).bits id) ((poolLayout allMem).bits id + (s.bitmap id).btmpBytesLen)

/-- The main thread's PCB, where the area of the bitmaps ends. -/
def MAIN_PCB : Nat := 0xc009e000

/-- The address of the `i`-th frame of a pool. -/
def Pool.frame (p : Pool) (i : Nat) : Nat := p.phyAddrStart + i * PG_SIZE

/-- The frames that the bitmap of the pool has a bit for. -/
def Pool.frames (p : Pool) : Set Nat := { a | ∃ i, i < 8 * p.poolBitmap.btmpBytesLen ∧ a = p.frame i }

/-- Whatever the bits are, `palloc` returns `NULL` or one of the pool's frames. -/
theorem palloc_mem_frames (b : Build) (p p' : Pool) (a : Nat) (h : palloc b p = .ok (a, p')) :
    a = NULL ∨ a ∈ p.frames := by
  unfold palloc at h
  obtain ⟨r, hr, h⟩ := (bind_eq_ok _ _ _).mp h
  cases r with
  | none =>
    left
    simp only [pure_eq_ok, Except.ok.injEq, Prod.mk.injEq] at h
    exact h.1.symm
  | some i =>
    right
    have hrun := bitmapScan_some _ _ _ _ (by decide) hr
    obtain ⟨btmp, -, h⟩ := (bind_eq_ok _ _ _).mp h
    simp only [pure_eq_ok, Except.ok.injEq, Prod.mk.injEq] at h
    refine ⟨i, hrun.start, ?_⟩
    unfold Pool.frame
    omega

/-! ## The sizes -/

/-- The whole pages above the first 2 MB. -/
def freePages (allMem : Nat) : Nat := (allMem - 0x200000) / 4096

/-- Of the free pages as they fit in 16 bits, half are for the kernel and the rest for user processes; a
byte of bitmap stands for eight. -/
theorem poolLayout_eq (allMem : Nat) (h : 0x200000 ≤ allMem) (h32 : allMem < 2 ^ 32) :
    ∃ n, n = freePages allMem % 2 ^ 16 ∧ poolLayout allMem =
      { kernelFreePages := n / 2
        userFreePages := n - n / 2
        kbmLength := n / 2 / 8
        ubmLength := (n - n / 2) / 8
        kpStart := 0x200000
        upStart := 0x200000 + n / 2 * 4096 } := by
  have hfree : (allMem + 2 ^ 32 - 0x200000) % 2 ^ 32 = allMem - 0x200000 := by omega
  refine ⟨_, rfl, ?_⟩
  unfold freePages
  rw [← hfree]
  rfl

/-- `n` free pages above 2 MB end where memory ends. -/
theorem freePages_le (allMem : Nat) (h : 0x200000 ≤ allMem) : 0x200000 + freePages allMem * 4096 ≤ allMem := by
  unfold freePages
  omega

/-! ## No overlap -/

section
variable (allMem : Nat) (junk : Nat → Nat → UInt8) (s : Vm)
  (h : 0x200000 ≤ allMem) (h32 : allMem < 2 ^ 32)

include h h32

/-- The kernel's frames lie between 2 MB and the start of the user pool. -/
theorem kernelFrame_bounds (a : Nat) (ha : a ∈ (memPoolInit allMem junk s).kernelPool.frames) :
    a % 4096 = 0 ∧ 0x200000 ≤ a ∧ a + 4096 ≤ (memPoolInit allMem junk s).userPool.phyAddrStart := by
  obtain ⟨n, hn, hl⟩ := poolLayout_eq allMem h h32
  obtain ⟨i, hi, rfl⟩ := ha
  simp only [memPoolInit, hl, bitmapInit_len, Pool.frame, PG_SIZE] at hi ⊢
  omega

/-- The user frames lie between the start of their pool and the end of memory. -/
theorem userFrame_bounds (a : Nat) (ha : a ∈ (memPoolInit allMem junk s).userPool.frames) :
    a % 4096 = 0 ∧ (memPoolInit allMem junk s).userPool.phyAddrStart ≤ a ∧ a + 4096 ≤ allMem := by
  obtain ⟨n, hn, hl⟩ := poolLayout_eq allMem h h32
  have hend := freePages_le allMem h
  obtain ⟨i, hi, rfl⟩ := ha
  simp only [memPoolInit, hl, bitmapInit_len, Pool.frame, PG_SIZE] at hi ⊢
  omega

/-- The user pool starts inside the free memory. -/
theorem userPool_start : 0x200000 ≤ (memPoolInit allMem junk s).userPool.phyAddrStart ∧
    (memPoolInit allMem junk s).userPool.phyAddrStart ≤ allMem := by
  obtain ⟨n, hn, hl⟩ := poolLayout_eq allMem h h32
  have hend := freePages_le allMem h
  simp only [memPoolInit, hl]
  omega

/-- The bitmaps are placed one after the other, and the last one ends before the main thread's PCB. -/
theorem bitmapBytes_eq :
    ∃ kbm ubm, kbm + ubm + kbm ≤ MAIN_PCB - MEM_BITMAP_BASE ∧ ∀ id,
      (memPoolInit allMem junk s).bitmapBytes allMem id =
        match id with
        | .kernelPool => Set.Ico MEM_BITMAP_BASE (MEM_BITMAP_BASE + kbm)
        | .userPool => Set.Ico (MEM_BITMAP_BASE + kbm) (MEM_BITMAP_BASE + kbm + ubm)
        | .kernelVaddr =>
          Set.Ico (MEM_BITMAP_BASE + kbm + ubm) (MEM_BITMAP_BASE + kbm + ubm + kbm) := by
  obtain ⟨n, hn, hl⟩ := poolLayout_eq allMem h h32
  refine ⟨n / 2 / 8, (n - n / 2) / 8, ?_, ?_⟩
  · simp only [MAIN_PCB, MEM_BITMAP_BASE]
    omega
  · have hu : (MEM_BITMAP_BASE + n / 2 / 8) % 2 ^ 32 = MEM_BITMAP_BASE + n / 2 / 8 := by
      simp only [MEM_BITMAP_BASE]
      omega
    have hv : (MEM_BITMAP_BASE + n / 2 / 8 + (n - n / 2) / 8) % 2 ^ 32 =
        MEM_BITMAP_BASE + n / 2 / 8 + (n - n / 2) / 8 := by
      simp only [MEM_BITMAP_BASE]
      omega
    intro id
    cases id with
    | kernelPool => simp only [Vm.bitmapBytes, Vm.bitmap, memPoolInit, hl, PoolLayout.bits, bitmapInit_len]
    | userPool => simp only [Vm.bitmapBytes, Vm.bitmap, memPoolInit, hl, PoolLayout.bits, bitmapInit_len, hu]
    | kernelVaddr =>
      simp only [Vm.bitmapBytes, Vm.bitmap, memPoolInit, hl, PoolLayout.bits, bitmapInit_len, hv]

/-- **No overlap.**  Every address that `palloc` takes from a pool is a whole page of `[2 MB, allMem)`, no
frame is in both pools, and the three bitmaps lie apart from each other below the main thread's PCB. -/
theorem memPoolInit_disjoint :
    (∀ b pf (p p' : Pool) a, p.phyAddrStart = ((memPoolInit allMem junk s).pool pf).phyAddrStart →
      p.poolBitmap.btmpBytesLen = ((memPoolInit allMem junk s).pool pf).poolBitmap.btmpBytesLen →
      palloc b p = .ok (a, p') → a = NULL ∨ a ∈ ((memPoolInit allMem junk s).pool pf).frames) ∧
    (∀ pf, ∀ a ∈ ((memPoolInit allMem junk s).pool pf).frames,
      a % 4096 = 0 ∧ 0x200000 ≤ a ∧ a + 4096 ≤ allMem) ∧
    Disjoint (memPoolInit allMem junk s).kernelPool.frames (memPoolInit allMem junk s).userPool.frames ∧
    Pairwise (Function.onFun Disjoint ((memPoolInit allMem junk s).bitmapBytes allMem)) ∧
    ∀ id, (memPoolInit allMem junk s).bitmapBytes allMem id ⊆ Set.Ico 0xc009a000 0xc009e000 := by
  have hk := kernelFrame_bounds allMem junk s h h32
  have hu := userFrame_bounds allMem junk s h h32
  have hstart := userPool_start allMem junk s h h32
  obtain ⟨kbm, ubm, hlen, hbytes⟩ := bitmapBytes_eq allMem junk s h h32
  simp only [MAIN_PCB, MEM_BITMAP_BASE] at hlen hbytes
  refine ⟨?_, ?_, ?_, ?_, ?_⟩
  · intro b pf p p' a hs hl hp
    rcases palloc_mem_frames b p p' a hp with hn | ⟨i, hi, rfl⟩
    · exact .inl hn
    · right
      refine ⟨i, ?_, ?_⟩
      · rw [← hl]
        exact hi
      · unfold Pool.frame
        rw [hs]
  · intro pf a ha
    cases pf with
    | PF_KERNEL =>
      have := hk a ha
      omega
    | PF_USER =>
      have := hu a ha
      omega
  · rw [Set.disjoint_left]
    intro a hka hua
    have h1 := hk a hka
    have h2 := hu a hua
    omega
  · intro id id' hne
    show Disjoint ((memPoolInit allMem junk s).bitmapBytes allMem id) _
    rw [hbytes, hbytes, Set.disjoint_left]
    intro a ha ha'
    cases id <;> cases id' <;> simp only [Set.mem_Ico] at ha ha' <;>
      first | exact hne rfl | omega
  · intro id a ha
    rw [hbytes] at ha
    rw [Set.mem_Ico]
    cases id <;> simp only [Set.mem_Ico] at ha <;> omega

end

/-- A machine with 32 MB. -/
theorem memPoolInit_disjoint_32mb :
    Disjoint (bootVm 0x2000000 (fun _ _ => 0) fun _ _ => 0).kernelPool.frames
      (bootVm 0x2000000 (fun _ _ => 0) fun _ _ => 0).userPool.frames :=
  (memPoolInit_disjoint 0x2000000 (fun _ _ => 0) _ (by decide) (by decide)).2.2.1

/-! ## How much memory is managed -/

/-- The two pools have a bit for all but at most 14 of the free pages, and their sizes add up to all of
them. -/
def UsesAllMemory (allMem : Nat) (s : Vm) : Prop :=
  8 * s.kernelPool.poolBitmap.btmpBytesLen + 8 * s.userPool.poolBitmap.btmpBytesLen ≤ freePages allMem ∧
  freePages allMem ≤
    8 * s.kernelPool.poolBitmap.btmpBytesLen + 8 * s.userPool.poolBitmap.btmpBytesLen + 14 ∧
  s.kernelPool.poolSize / PG_SIZE + s.userPool.poolSize / PG_SIZE = freePages allMem

/-- **`uint16_t all_free_pages`.**  Up to 512 MB, the pools manage the memory exactly when it is below
2 MB + 2^16 pages, that is below 258 MB. -/
theorem memPoolInit_usesAll_iff (allMem : Nat) (junk : Nat → Nat → UInt8) (s : Vm)
    (h : 0x200000 ≤ allMem) (hmax : allMem ≤ 0x20000000) :
    UsesAllMemory allMem (memPoolInit allMem junk s) ↔ allMem < 0x200000 + 2 ^ 16 * PG_SIZE := by
  obtain ⟨n, hn, hl⟩ := poolLayout_eq allMem h (by omega)
  have hfit : freePages allMem < 2 ^ 16 ↔ allMem < 0x200000 + 2 ^ 16 * PG_SIZE := by
    unfold freePages PG_SIZE
    omega
  simp only [UsesAllMemory, memPoolInit, hl, bitmapInit_len]
  rw [← hfit]
  unfold PG_SIZE
  constructor
  · rintro ⟨-, -, hsum⟩
    omega
  · intro hlt
    have hn' : n = freePages allMem := by omega
    omega

/-- A machine with 256 MB. -/
theorem memPoolInit_usesAll_256mb :
    UsesAllMemory 0x10000000 (bootVm 0x10000000 (fun _ _ => 0) fun _ _ => 0) :=
  (memPoolInit_usesAll_iff 0x10000000 (fun _ _ => 0) _ (by decide) (by decide)).mpr (by decide)

/-- With the 512 MB of the bochs configuration, 2^16 of the 130560 free pages are in neither pool. -/
theorem memPoolInit_loses_512mb :
    ¬ UsesAllMemory 0x20000000 (bootVm 0x20000000 (fun _ _ => 0) fun _ _ => 0) := by
  rintro ⟨-, -, hsum⟩
  exact absurd hsum (by decide)

end MyOs
