import MyOs.Lib.Bitmap
import MyOs.Theory.Paging
import MyOs.Thread.Lock

/-!
# kernel/memory.c: the page allocator

The state `Vm` is what the allocator reads and writes: physical memory with the page tables in it,
`cr3`, the two physical pools, the kernel's virtual-address pool, and of every task its `pgdir` and
its virtual-address pool.  Page tables are reached the way the code reaches them, through the
recursive window of the active directory.  Bitmaps are kept beside the memory, as arrays of bytes.

    pageTableAdd_debug   what a call of page_table_add that returns has done to memory
    palloc_debug         what a call of palloc that returns has done to its pool
    malloc_page, get_kernel_pages, get_user_pages, get_a_page, mem_pool_init are modelled below.

The specifications over whole runs are in `MyOs.Kernel.MemoryInv` and after it.
-/

namespace MyOs

open Paging

def PG_SIZE : Nat := 4096
def NULL : Nat := 0
def MEM_BITMAP_BASE : Nat := 0xc009a000
def K_HEAP_START : Nat := 0xc0100000

def PG_P_1 : Nat := 1
def PG_RW_W : Nat := 2
def PG_US_U : Nat := 4

/-- `struct virtual_addr`. -/
structure VirtualAddr where
  vaddrBitmap : Bitmap
  vaddrStart : Nat

/-- `struct pool`. -/
structure Pool where
  poolBitmap : Bitmap
  phyAddrStart : Nat
  poolSize : Nat
  lock : Lock

/-- `enum pool_flags`. -/
inductive PoolFlags where
  | PF_KERNEL
  | PF_USER
  deriving DecidableEq, Repr

/-- The fields of `struct task_struct` that the allocator reads. -/
structure TaskMem where
  pgdir : Nat
  userprogVaddr : VirtualAddr

/-- The memory system.  `cur` is the task `running_thread()` returns. -/
structure Vm where
  mem : Mem
  cr3 : Nat
  kernelPool : Pool
  userPool : Pool
  kernelVaddr : VirtualAddr
  task : Nat → TaskMem
  cur : Nat

/-- The frame of the active page directory. -/
def Vm.dir (s : Vm) : Nat := s.cr3 / 4096

def PDE_IDX (addr : Nat) : Nat := (addr &&& 0xffc00000) >>> 22
def PTE_IDX (addr : Nat) : Nat := (addr &&& 0x003ff000) >>> 12

/-! ## Algorithm -/

def ptePtr (vaddr : Nat) : Nat :=
  (0xffc00000 + ((vaddr &&& 0xffc00000) >>> 10) + PTE_IDX vaddr * 4) % 2 ^ 32

def pdePtr (vaddr : Nat) : Nat := (0xfffff000 + PDE_IDX vaddr * 4) % 2 ^ 32

/-- `memset(dst, 0, size)` of whole words, through the active directory. -/
def memsetZero (b : Build) (s : Vm) (dst size : Nat) : Except Halt Vm := do
  assert b "memset" "dst_ != NULL" (dst ≠ NULL)
  let mem ← orFault dst (fill s.dir 0 (size / 4) dst s.mem)
  pure { s with mem := mem }

/-- `memcpy(dst, src, size)` of whole words. -/
def memcpy (b : Build) (s : Vm) (dst src size : Nat) : Except Halt Vm := do
  assert b "memcpy" "dst_ != NULL && src_ != NULL" (dst ≠ NULL && src ≠ NULL)
  let mem ← orFault dst (copy s.dir (size / 4) dst src s.mem)
  pure { s with mem := mem }

def loadWord (s : Vm) (vaddr : Nat) : Except Halt Nat := orFault vaddr (load s.mem s.dir vaddr)

def storeWord (s : Vm) (vaddr w : Nat) : Except Halt Vm := do
  let mem ← orFault vaddr (store s.mem s.dir vaddr w)
  pure { s with mem := mem }

/-- `while(cnt < pg_cnt) bitmap_set(btmp, bit_idx_start + cnt++, 1)`. -/
def setRun (b : Build) (bitIdxStart : Nat) : Nat → Nat → Bitmap → Except Halt Bitmap
  | 0, _, btmp => pure btmp
  | n + 1, cnt, btmp => do
    let btmp ← bitmapSet b btmp (bitIdxStart + cnt) 1
    setRun b bitIdxStart n (cnt + 1) btmp

/-- The common part of the two branches of `vaddr_get`: take `pgCnt` pages of one address pool. -/
def vaddrTake (b : Build) (va : VirtualAddr) (pgCnt : Nat) : Except Halt (Nat × VirtualAddr) := do
  match ← bitmapScan b va.vaddrBitmap pgCnt with
  | none => pure (NULL, va)
  | some bitIdxStart =>
    let btmp ← setRun b bitIdxStart pgCnt 0 va.vaddrBitmap
    pure ((va.vaddrStart + bitIdxStart * PG_SIZE) % 2 ^ 32, { va with vaddrBitmap := btmp })

def vaddrGet (b : Build) (s : Vm) (pf : PoolFlags) (pgCnt : Nat) : Except Halt (Nat × Vm) := do
  match pf with
  | .PF_KERNEL =>
    let (vaddrStart, va) ← vaddrTake b s.kernelVaddr pgCnt
    pure (vaddrStart, { s with kernelVaddr := va })
  | .PF_USER =>
    let cur := s.task s.cur
    let (vaddrStart, va) ← vaddrTake b cur.userprogVaddr pgCnt
    -- a failed scan returns before the ASSERT
    assert b "vaddr_get" "(uint32_t)vaddr_start < (0xc0000000 - PG_SIZE)"
      (vaddrStart = NULL || vaddrStart < 0xc0000000 - PG_SIZE)
    pure (vaddrStart, { s with task := Function.update s.task s.cur { cur with userprogVaddr := va } })

/-- The physical address of a fresh page of the pool, or `NULL`. -/
def palloc (b : Build) (mPool : Pool) : Except Halt (Nat × Pool) := do
  match ← bitmapScan b mPool.poolBitmap 1 with
  | none => pure (NULL, mPool)
  | some bitIdx =>
    let btmp ← bitmapSet b mPool.poolBitmap bitIdx 1
    pure (bitIdx * PG_SIZE + mPool.phyAddrStart, { mPool with poolBitmap := btmp })

/-- `palloc(mem_pool)` for the pool that `pf` selects. -/
def pallocFrom (b : Build) (s : Vm) (pf : PoolFlags) : Except Halt (Nat × Vm) := do
  match pf with
  | .PF_KERNEL =>
    let (pagePhyaddr, pool) ← palloc b s.kernelPool
    pure (pagePhyaddr, { s with kernelPool := pool })
  | .PF_USER =>
    let (pagePhyaddr, pool) ← palloc b s.userPool
    pure (pagePhyaddr, { s with userPool := pool })

def pageTableAdd (b : Build) (s : Vm) (vaddr pagePhyaddr : Nat) : Except Halt Vm := do
  let pde := pdePtr vaddr
  let pte := ptePtr vaddr
  let pdeVal ← loadWord s pde
  if pdeVal &&& 0x00000001 ≠ 0 then
    let pteVal ← loadWord s pte
    assert b "page_table_add" "!(*pte & 0x00000001)" (pteVal &&& 0x00000001 = 0)
    if pteVal &&& 0x00000001 = 0 then
      storeWord s pte (pagePhyaddr ||| PG_US_U ||| PG_RW_W ||| PG_P_1)
    else panic "page_table_add" "pte repeat"
  else
    let (pdePhyaddr, pool) ← palloc b s.kernelPool
    let s ← storeWord { s with kernelPool := pool } pde (pdePhyaddr ||| PG_US_U ||| PG_RW_W ||| PG_P_1)
    let s ← memsetZero b s (pte &&& 0xfffff000) PG_SIZE
    let pteVal ← loadWord s pte
    assert b "page_table_add" "!(*pte & 0x00000001)" (pteVal &&& 0x00000001 = 0)
    storeWord s pte (pagePhyaddr ||| PG_US_U ||| PG_RW_W ||| PG_P_1)

/-- The frame loop of `malloc_page`. -/
def mallocLoop (b : Build) (pf : PoolFlags) (vaddrStart : Nat) : Nat → Nat → Vm → Except Halt (Nat × Vm)
  | 0, _, s => pure (vaddrStart, s)
  | cnt + 1, vaddr, s => do
    let (pagePhyaddr, s) ← pallocFrom b s pf
    if pagePhyaddr = NULL then pure (NULL, s)
    else
      let s ← pageTableAdd b s vaddr pagePhyaddr
      mallocLoop b pf vaddrStart cnt (vaddr + PG_SIZE) s

def mallocPage (b : Build) (s : Vm) (pf : PoolFlags) (pgCnt : Nat) : Except Halt (Nat × Vm) := do
  assert b "malloc_page" "pg_cnt>0 && pg_cnt<3840" (pgCnt > 0 && pgCnt < 3840)
  let (vaddrStart, s) ← vaddrGet b s pf pgCnt
  if vaddrStart = NULL then pure (NULL, s)
  else mallocLoop b pf vaddrStart pgCnt vaddrStart s

def getKernelPages (b : Build) (s : Vm) (pgCnt : Nat) : Except Halt (Nat × Vm) := do
  let (vaddr, s) ← mallocPage b s .PF_KERNEL pgCnt
  if vaddr ≠ NULL then
    let s ← memsetZero b s vaddr (pgCnt * PG_SIZE)
    pure (vaddr, s)
  else pure (vaddr, s)

def getUserPages (b : Build) (s : Vm) (pgCnt : Nat) : Except Halt (Nat × Vm) := do
  let lock ← lockAcquire b s.cur s.userPool.lock
  let s := { s with userPool := { s.userPool with lock := lock } }
  let (vaddr, s) ← mallocPage b s .PF_USER pgCnt
  let s ← if vaddr ≠ NULL then memsetZero b s vaddr (pgCnt * PG_SIZE) else pure s
  let lock ← lockRelease b s.cur s.userPool.lock
  pure (vaddr, { s with userPool := { s.userPool with lock := lock } })

def Vm.pool (s : Vm) : PoolFlags → Pool
  | .PF_KERNEL => s.kernelPool
  | .PF_USER => s.userPool

def Vm.setPoolLock (s : Vm) (pf : PoolFlags) (lock : Lock) : Vm :=
  match pf with
  | .PF_KERNEL => { s with kernelPool := { s.kernelPool with lock := lock } }
  | .PF_USER => { s with userPool := { s.userPool with lock := lock } }

/-- `(vaddr - vaddr_start) / PG_SIZE` in 32-bit unsigned arithmetic. -/
def pageIdx (vaddr vaddrStart : Nat) : Nat := (vaddr + 2 ^ 32 - vaddrStart) % 2 ^ 32 / PG_SIZE

/-- The middle of `get_a_page`: mark the page in the address pool of the caller. -/
def markPage (b : Build) (s : Vm) (pf : PoolFlags) (vaddr : Nat) : Except Halt Vm := do
  let cur := s.task s.cur
  if cur.pgdir ≠ NULL ∧ pf = .PF_USER then
    let bitIdx := pageIdx vaddr cur.userprogVaddr.vaddrStart
    assert b "get_a_page" "bit_idx > 0" (bitIdx > 0)
    let btmp ← bitmapSet b cur.userprogVaddr.vaddrBitmap bitIdx 1
    let va := { cur.userprogVaddr with vaddrBitmap := btmp }
    pure { s with task := Function.update s.task s.cur { cur with userprogVaddr := va } }
  else if cur.pgdir = NULL ∧ pf = .PF_KERNEL then
    let bitIdx := pageIdx vaddr s.kernelVaddr.vaddrStart
    assert b "get_a_page" "bit_idx > 0" (bitIdx > 0)
    let btmp ← bitmapSet b s.kernelVaddr.vaddrBitmap bitIdx 1
    pure { s with kernelVaddr := { s.kernelVaddr with vaddrBitmap := btmp } }
  else
    panic "get_a_page" "get_a_page: not allow kernel alloc userspace or             user alloc kernelspace by get_a_page"

def getAPage (b : Build) (s : Vm) (pf : PoolFlags) (vaddr : Nat) : Except Halt (Nat × Vm) := do
  let lock ← lockAcquire b s.cur (s.pool pf).lock
  let s ← markPage b (s.setPoolLock pf lock) pf vaddr
  let (pagePhyaddr, s) ← pallocFrom b s pf
  -- this return leaves the lock taken
  if pagePhyaddr = NULL then pure (NULL, s)
  else
    let s ← pageTableAdd b s vaddr pagePhyaddr
    let lock ← lockRelease b s.cur (s.pool pf).lock
    pure (vaddr, s.setPoolLock pf lock)

def addrV2p (s : Vm) (vaddr : Nat) : Except Halt Nat := do
  let pteVal ← loadWord s (ptePtr vaddr)
  pure (((pteVal &&& 0xfffff000) + (vaddr &&& 0x00000fff)) % 2 ^ 32)

/-- The local variables of `mem_pool_init`, with their types' widths. -/
structure PoolLayout where
  kernelFreePages : Nat
  userFreePages : Nat
  kbmLength : Nat
  ubmLength : Nat
  kpStart : Nat
  upStart : Nat

def poolLayout (allMem : Nat) : PoolLayout :=
  let pageTableSize := PG_SIZE * 256
  let usedMem := pageTableSize + 0x100000
  let freeMem := (allMem + 2 ^ 32 - usedMem) % 2 ^ 32
  let allFreePages := freeMem / PG_SIZE % 2 ^ 16
  let kernelFreePages := allFreePages / 2
  let userFreePages := allFreePages - kernelFreePages
  { kernelFreePages := kernelFreePages
    userFreePages := userFreePages
    kbmLength := kernelFreePages / 8
    ubmLength := userFreePages / 8
    kpStart := usedMem
    upStart := usedMem + kernelFreePages * PG_SIZE }

/-- `mem_pool_init`.  `junk k` is what memory holds where the bits of the `k`-th bitmap (kernel pool,
user pool, kernel addresses) are placed and after them. -/
def memPoolInit (allMem : Nat) (junk : Nat → Nat → UInt8) (s : Vm) : Vm :=
  let l := poolLayout allMem
  { s with
    kernelPool :=
      { poolBitmap := bitmapInit { btmpBytesLen := l.kbmLength, bits := junk 0 }
        phyAddrStart := l.kpStart, poolSize := l.kernelFreePages * PG_SIZE, lock := lockInit }
    userPool :=
      { poolBitmap := bitmapInit { btmpBytesLen := l.ubmLength, bits := junk 1 }
        phyAddrStart := l.upStart, poolSize := l.userFreePages * PG_SIZE, lock := lockInit }
    kernelVaddr :=
      { vaddrBitmap := bitmapInit { btmpBytesLen := l.kbmLength, bits := junk 2 }
        vaddrStart := K_HEAP_START } }

/-! ## Addresses and entries -/

theorem PDE_IDX_eq (v : Nat) (hv : v < 2 ^ 32) : PDE_IDX v = v / 4096 / 1024 := by
  have h := Word.and_shiftRight_field v 10 22
  rw [show (2 ^ 10 - 1) <<< 22 = 0xffc00000 from rfl] at h
  unfold PDE_IDX
  omega

theorem PTE_IDX_eq (v : Nat) : PTE_IDX v = v / 4096 % 1024 :=
  Word.and_shiftRight_field v 10 12

theorem pdePtr_eq (v : Nat) (hv : v < 2 ^ 32) : pdePtr v = 0xfffff000 + v / 4096 / 1024 * 4 := by
  unfold pdePtr
  rw [PDE_IDX_eq v hv]
  omega

theorem ptePtr_eq (v : Nat) (hv : v < 2 ^ 32) :
    ptePtr v = (0xffc00 + v / 4096 / 1024) * 4096 + v / 4096 % 1024 * 4 := by
  have h := Word.and_high_field v 10 22 hv
  rw [show (2 ^ 10 - 1) <<< 22 = 0xffc00000 from rfl] at h
  unfold ptePtr
  rw [PTE_IDX_eq, h, Nat.shiftRight_eq_div_pow]
  omega

/-- The address of the page table's window page, as `page_table_add` computes it for `memset`. -/
theorem ptePtr_page (v : Nat) (hv : v < 2 ^ 32) :
    ptePtr v &&& 0xfffff000 = (0xffc00 + v / 4096 / 1024) * 4096 := by
  have h := Word.and_high_field (ptePtr v) 20 12 (by unfold ptePtr; omega)
  rw [show (2 ^ 20 - 1) <<< 12 = 0xfffff000 from rfl] at h
  rw [h, ptePtr_eq v hv]
  omega

/-- The entry for frame `f`: present, writable, for user mode. -/
theorem entry_eq (f : Nat) : f * 4096 ||| PG_US_U ||| PG_RW_W ||| PG_P_1 = f * 4096 + 7 := by
  have h := Word.or_low_eq_add (f * 4096) 7 12 (by omega) (by omega)
  unfold PG_US_U PG_RW_W PG_P_1
  rw [Nat.or_assoc, Nat.or_assoc]
  exact h

/-! ## The window accesses -/

section
variable (s : Vm) (v : Nat) (hs : SelfMapped s.mem s.dir) (hv : v < 2 ^ 32)

include hs hv

theorem walkPage_pdePtr : walkPage s.mem s.dir (pdePtr v / 4096) = some s.dir := by
  rw [pdePtr_eq v hv, show (0xfffff000 + v / 4096 / 1024 * 4) / 4096 = 0xfffff by omega]
  exact walkPage_dirWindow s.mem s.dir hs

theorem loadWord_pdePtr : loadWord s (pdePtr v) = .ok (s.mem s.dir (v / 4096 / 1024)) := by
  have hslot : pdePtr v % 4096 / 4 = v / 4096 / 1024 := by rw [pdePtr_eq v hv]; omega
  unfold loadWord
  rw [load_eq _ _ _ _ (walkPage_pdePtr s v hs hv), hslot]
  rfl

theorem storeWord_pdePtr (w : Nat) :
    storeWord s (pdePtr v) w = .ok { s with mem := s.mem.set s.dir (v / 4096 / 1024) w } := by
  have hslot : pdePtr v % 4096 / 4 = v / 4096 / 1024 := by rw [pdePtr_eq v hv]; omega
  unfold storeWord
  rw [store_eq _ _ _ _ _ (walkPage_pdePtr s v hs hv), hslot]
  rfl

variable (hp : s.mem s.dir (v / 4096 / 1024) % 2 = 1)

include hp

theorem walkPage_ptePtr :
    walkPage s.mem s.dir (ptePtr v / 4096) = some (table s.mem s.dir (v / 4096)) := by
  rw [ptePtr_eq v hv, show ((0xffc00 + v / 4096 / 1024) * 4096 + v / 4096 % 1024 * 4) / 4096 =
    0xffc00 + v / 4096 / 1024 by omega, walkPage_tableWindow _ _ _ hs (by omega), if_pos hp]
  rfl

theorem loadWord_ptePtr :
    loadWord s (ptePtr v) = .ok (s.mem (table s.mem s.dir (v / 4096)) (v / 4096 % 1024)) := by
  have hslot : ptePtr v % 4096 / 4 = v / 4096 % 1024 := by rw [ptePtr_eq v hv]; omega
  unfold loadWord
  rw [load_eq _ _ _ _ (walkPage_ptePtr s v hs hv hp), hslot]
  rfl

theorem storeWord_ptePtr (w : Nat) :
    storeWord s (ptePtr v) w =
      .ok { s with mem := s.mem.set (table s.mem s.dir (v / 4096)) (v / 4096 % 1024) w } := by
  have hslot : ptePtr v % 4096 / 4 = v / 4096 % 1024 := by rw [ptePtr_eq v hv]; omega
  unfold storeWord
  rw [store_eq _ _ _ _ _ (walkPage_ptePtr s v hs hv hp), hslot]
  rfl

end

/-- `addr_v2p` of an address whose page table is there. -/
theorem addrV2p_eq (s : Vm) (v w : Nat) (hs : SelfMapped s.mem s.dir) (hv : v < 2 ^ 32) (hw : w < 2 ^ 32)
    (hd : s.mem s.dir (v / 4096 / 1024) % 2 = 1)
    (hword : s.mem (table s.mem s.dir (v / 4096)) (v / 4096 % 1024) = w) :
    addrV2p s v = .ok (w / 4096 * 4096 + v % 4096) := by
  have hand := Word.and_high_field w 20 12 hw
  rw [show (2 ^ 20 - 1) <<< 12 = 0xfffff000 from rfl] at hand
  have hoff : v &&& 0x00000fff = v % 4096 := by
    rw [show (0x00000fff : Nat) = 2 ^ 12 - 1 from rfl, Nat.and_two_pow_sub_one_eq_mod]
  unfold addrV2p
  simp only [loadWord_ptePtr s v hs hv hd, hword, bind, Except.bind, pure_eq_ok, hand, hoff]
  congr 1
  omega

/-- `addr_v2p` of a mapped page. -/
theorem addrV2p_page (s : Vm) (p f : Nat) (hs : SelfMapped s.mem s.dir) (hp : p < 2 ^ 20)
    (hf : f < 2 ^ 20) (hw : s.mem (table s.mem s.dir p) (p % 1024) = f * 4096 + 7)
    (hd : s.mem s.dir (p / 1024) % 2 = 1) : addrV2p s (p * 4096) = .ok (f * 4096) := by
  have hpg : p * 4096 / 4096 = p := by omega
  rw [addrV2p_eq s (p * 4096) (f * 4096 + 7) hs (by omega) (by omega) (by rw [hpg]; exact hd)
    (by rw [hpg]; exact hw), show (f * 4096 + 7) / 4096 * 4096 + p * 4096 % 4096 = f * 4096 by omega]

/-! ## One call -/

theorem setRun_bit (b : Build) (st : Nat) : ∀ (n cnt : Nat) (btmp btmp' : Bitmap),
    setRun b st n cnt btmp = .ok btmp' → btmp'.btmpBytesLen = btmp.btmpBytesLen ∧
      ∀ j, btmp'.bit j = (decide (st + cnt ≤ j ∧ j < st + cnt + n) || btmp.bit j) := by
  intro n
  induction n with
  | zero =>
    intro cnt btmp btmp' h
    simp only [setRun, pure_eq_ok, Except.ok.injEq] at h
    subst h
    refine ⟨rfl, fun j => ?_⟩
    rw [decide_eq_false (by omega), Bool.false_or]
  | succ n ih =>
    intro cnt btmp btmp' h
    simp only [setRun, bitmapSet_one, bind, Except.bind] at h
    obtain ⟨hlen, hbit⟩ := ih (cnt + 1) _ btmp' h
    refine ⟨hlen, fun j => ?_⟩
    rw [hbit, Bitmap.bit_write]
    by_cases hj : j = st + cnt
    · rw [if_pos hj, decide_eq_true (show st + cnt ≤ j ∧ j < st + cnt + (n + 1) by omega)]
      simp
    · rw [if_neg hj]
      congr 1
      exact decide_eq_decide.mpr (by omega)

/-- Taking pages of an address pool: nothing, or the first run of clear bits that is long enough. -/
theorem vaddrTake_spec (b : Build) (va va' : VirtualAddr) (n a : Nat) (hn : 0 < n)
    (h : vaddrTake b va n = .ok (a, va')) :
    (a = NULL ∧ va' = va) ∨ ∃ st, FirstRun va.vaddrBitmap n st ∧
      a = (va.vaddrStart + st * 4096) % 2 ^ 32 ∧ va'.vaddrStart = va.vaddrStart ∧
      va'.vaddrBitmap.btmpBytesLen = va.vaddrBitmap.btmpBytesLen ∧
      ∀ j, va'.vaddrBitmap.bit j = (decide (st ≤ j ∧ j < st + n) || va.vaddrBitmap.bit j) := by
  unfold vaddrTake at h
  obtain ⟨r, hr, h⟩ := (bind_eq_ok _ _ _).mp h
  cases r with
  | none =>
    left
    simp only [pure_eq_ok, Except.ok.injEq, Prod.mk.injEq] at h
    exact ⟨h.1.symm, h.2.symm⟩
  | some st =>
    right
    obtain ⟨btmp, hs, h⟩ := (bind_eq_ok _ _ _).mp h
    obtain ⟨hlen, hbit⟩ := setRun_bit b st n 0 _ _ hs
    simp only [pure_eq_ok, Except.ok.injEq, Prod.mk.injEq] at h
    obtain ⟨rfl, rfl⟩ := h
    exact ⟨st, bitmapScan_some _ _ _ _ hn hr, rfl, rfl, hlen, by simpa using hbit⟩

/-- A fresh page of the pool: a clear bit inside the bitmap is found and set. -/
theorem palloc_debug (mPool mPool' : Pool) (a : Nat) (h : palloc .debug mPool = .ok (a, mPool')) :
    ∃ i, i < 8 * mPool.poolBitmap.btmpBytesLen ∧ mPool.poolBitmap.bit i = false ∧
      a = i * 4096 + mPool.phyAddrStart ∧
      mPool' = { mPool with poolBitmap := mPool.poolBitmap.write i 1 } := by
  unfold palloc at h
  obtain ⟨r, hr, h⟩ := (bind_eq_ok _ _ _).mp h
  obtain ⟨i, rfl⟩ := bitmapScan_one_debug _ _ hr
  have hrun := bitmapScan_some _ _ _ _ (by decide) hr
  simp only [bitmapSet_one, bind, Except.bind, pure_eq_ok, Except.ok.injEq, Prod.mk.injEq] at h
  exact ⟨i, hrun.start, by simpa using hrun.clear 0 (by decide), h.1.symm, h.2.symm⟩

section

variable (s : Vm) (v g : Nat) (hs : SelfMapped s.mem s.dir) (hv : v < 2 ^ 32)
  (hpde : s.mem s.dir (v / 4096 / 1024) = g * 4096 + 7) (hg : g ≠ s.dir)

include hs hv hpde hg

/-- A table just installed is zeroed through its page of the window. -/
theorem memsetZero_newTable (b : Build) : memsetZero b s (ptePtr v &&& 0xfffff000) PG_SIZE =
    .ok { s with mem := s.mem.setRange g 0 1024 fun _ => 0 } := by
  have hwin : walkPage s.mem s.dir (0xffc00 + v / 4096 / 1024) = some g := by
    rw [walkPage_tableWindow _ _ _ hs (by omega), if_pos (by omega), hpde]
    congr 1
    omega
  have htab : table s.mem s.dir (0xffc00 + v / 4096 / 1024) = s.dir := by
    unfold table
    rw [show (0xffc00 + v / 4096 / 1024) / 1024 = 1023 by omega]
    exact hs.2
  have hfill := fill_page s.dir 0 g 1024 ((0xffc00 + v / 4096 / 1024) * 4096) s.mem
    (by rw [Nat.mul_div_cancel _ (by decide)]; exact hwin) hg
    (by rw [Nat.mul_div_cancel _ (by decide), htab]; exact hg) (by omega) (by omega)
  rw [Nat.mul_mod_left, Nat.zero_div] at hfill
  unfold memsetZero
  rw [ptePtr_page v hv, show PG_SIZE / 4 = 1024 from rfl, hfill]
  cases b <;> simp [assert, NULL, orFault, bind, Except.bind]

/-- Then the entry for `v` is a word of the new table, clear so far. -/
theorem loadStore_newTable (w : Nat) :
    loadWord { s with mem := s.mem.setRange g 0 1024 fun _ => 0 } (ptePtr v) = .ok 0 ∧
    storeWord { s with mem := s.mem.setRange g 0 1024 fun _ => 0 } (ptePtr v) w =
      .ok { s with mem := (s.mem.setRange g 0 1024 fun _ => 0).set g (v / 4096 % 1024) w } := by
  generalize hs2 : ({ s with mem := s.mem.setRange g 0 1024 fun _ => 0 } : Vm) = s2
  have hm : s2.mem = s.mem.setRange g 0 1024 fun _ => 0 := by rw [← hs2]
  have hd : s2.dir = s.dir := by rw [← hs2]; rfl
  have hdir : s2.mem s2.dir = s.mem s.dir := by
    rw [hm, hd, Mem.setRange_frame_ne _ _ _ _ _ _ hg.symm]
  have hself : SelfMapped s2.mem s2.dir := by
    unfold SelfMapped
    rw [hdir, hd]
    exact hs
  have hp : s2.mem s2.dir (v / 4096 / 1024) % 2 = 1 := by
    rw [hdir, hpde]
    omega
  have htab : table s2.mem s2.dir (v / 4096) = g := by
    unfold table
    rw [hdir, hpde]
    omega
  constructor
  · rw [loadWord_ptePtr s2 v hself hv hp, htab, hm, Mem.setRange_same _ _ _ _ _ _ (by omega) (by omega)]
  · rw [storeWord_ptePtr s2 v hself hv hp, htab, hm, ← hs2]

end

section

variable (b : Build) (s : Vm) (v f : Nat) (hs : SelfMapped s.mem s.dir) (hv : v < 2 ^ 32)

include hs hv

/-- `page_table_add` where the directory entry is present: the table's entry must be free, and is set. -/
theorem pageTableAdd_present (hp : s.mem s.dir (v / 4096 / 1024) % 2 = 1)
    (hfree : s.mem (table s.mem s.dir (v / 4096)) (v / 4096 % 1024) % 2 = 0) :
    pageTableAdd b s v (f * 4096) = .ok { s with
      mem := s.mem.set (table s.mem s.dir (v / 4096)) (v / 4096 % 1024) (f * 4096 + 7) } := by
  unfold pageTableAdd
  simp only [loadWord_pdePtr s v hs hv, loadWord_ptePtr s v hs hv hp, storeWord_ptePtr s v hs hv hp,
    entry_eq, Nat.and_one_is_mod, bind, Except.bind, hp, hfree]
  cases b <;> rfl

/-- `page_table_add` where it is absent: the frame `g` that `palloc` hands out is installed as the table
and zeroed, and its entry is set. -/
theorem pageTableAdd_absent (g : Nat) (pool : Pool) (hp : s.mem s.dir (v / 4096 / 1024) % 2 = 0)
    (hpal : palloc b s.kernelPool = .ok (g * 4096, pool)) (hg : g ≠ s.dir) :
    pageTableAdd b s v (f * 4096) = .ok { s with
      kernelPool := pool
      mem := ((s.mem.set s.dir (v / 4096 / 1024) (g * 4096 + 7)).setRange g 0 1024 fun _ => 0).set g
        (v / 4096 % 1024) (f * 4096 + 7) } := by
  have hne : v / 4096 / 1024 ≠ 1023 := by
    intro e
    rw [e] at hp
    have := hs.1
    omega
  unfold pageTableAdd
  simp only [loadWord_pdePtr s v hs hv, hpal, entry_eq, Nat.and_one_is_mod, bind, Except.bind, hp]
  generalize hs0 : ({ s with kernelPool := pool } : Vm) = s0
  have hs0m : s0.mem = s.mem := by rw [← hs0]
  have hs0d : s0.dir = s.dir := by rw [← hs0]; rfl
  rw [storeWord_pdePtr s0 v (by rw [hs0m, hs0d]; exact hs) hv]
  simp only
  generalize hs1 : ({ s0 with mem := s0.mem.set s0.dir (v / 4096 / 1024) (g * 4096 + 7) } : Vm) = s1
  have hs1d : s1.dir = s.dir := by rw [← hs1, ← hs0d]; rfl
  have hs1m : s1.mem = s.mem.set s.dir (v / 4096 / 1024) (g * 4096 + 7) := by
    rw [← hs1, ← hs0d, ← hs0m]
  -- the window is still there: only the absent entry of the directory changed
  have hself1 : SelfMapped s1.mem s1.dir := by
    rw [hs1d, hs1m]
    exact hs.set hne _
  have hpde1 : s1.mem s1.dir (v / 4096 / 1024) = g * 4096 + 7 := by rw [hs1d, hs1m, Mem.set_same]
  have hg1 : g ≠ s1.dir := by rw [hs1d]; exact hg
  obtain ⟨hload, hstore⟩ := loadStore_newTable s1 v g hself1 hv hpde1 hg1 (f * 4096 + 7)
  simp only [memsetZero_newTable s1 v g hself1 hv hpde1 hg1 b, hload, hstore]
  rw [hs1m, ← hs1, ← hs0]
  cases b <;> rfl

end

/-- **What `page_table_add` does.**  Under a self-mapped directory, either the directory entry is
present and the table's entry, free before, now maps the page; or a fresh frame `g` is installed as
the table, zeroed, and its entry maps the page. -/
theorem pageTableAdd_debug (s s' : Vm) (v f kq : Nat) (hs : SelfMapped s.mem s.dir) (hv : v < 2 ^ 32)
    (hk : s.kernelPool.phyAddrStart = kq * 4096)
    (h : pageTableAdd .debug s v (f * 4096) = .ok s') :
    (s.mem s.dir (v / 4096 / 1024) % 2 = 1 ∧
      s.mem (table s.mem s.dir (v / 4096)) (v / 4096 % 1024) % 2 = 0 ∧
      s' = { s with mem := s.mem.set (table s.mem s.dir (v / 4096)) (v / 4096 % 1024) (f * 4096 + 7) }) ∨
    (s.mem s.dir (v / 4096 / 1024) % 2 = 0 ∧ ∃ i, i < 8 * s.kernelPool.poolBitmap.btmpBytesLen ∧
      s.kernelPool.poolBitmap.bit i = false ∧ (kq + i ≠ s.dir →
      s' = { s with
        kernelPool := { s.kernelPool with poolBitmap := s.kernelPool.poolBitmap.write i 1 }
        mem := ((s.mem.set s.dir (v / 4096 / 1024) ((kq + i) * 4096 + 7)).setRange (kq + i) 0 1024
          fun _ => 0).set (kq + i) (v / 4096 % 1024) (f * 4096 + 7) })) := by
  have h' := h
  unfold pageTableAdd at h
  simp only [loadWord_pdePtr s v hs hv, entry_eq, bind, Except.bind] at h
  rw [Nat.and_one_is_mod] at h
  split at h
  · next hpde =>
    have hp : s.mem s.dir (v / 4096 / 1024) % 2 = 1 := by omega
    simp only [loadWord_ptePtr s v hs hv hp] at h
    left
    obtain ⟨u, ha, -⟩ := (bind_eq_ok _ _ _).mp h
    have hfree := of_decide_eq_true ((assert_debug_ok _ _ _ _).mp ha)
    rw [Nat.and_one_is_mod] at hfree
    rw [pageTableAdd_present .debug s v f hs hv hp hfree] at h'
    exact ⟨hp, hfree, (Except.ok.inj h').symm⟩
  · next hpde =>
    have hp : s.mem s.dir (v / 4096 / 1024) % 2 = 0 := by omega
    right
    refine ⟨hp, ?_⟩
    obtain ⟨⟨a, pool⟩, hpal, -⟩ := (bind_eq_ok _ _ _).mp h
    obtain ⟨i, hi, hbit, rfl, rfl⟩ := palloc_debug _ _ _ hpal
    refine ⟨i, hi, hbit, fun hg => ?_⟩
    rw [show i * 4096 + s.kernelPool.phyAddrStart = (kq + i) * 4096 by rw [hk]; omega] at hpal
    rw [pageTableAdd_absent .debug s v f hs hv (kq + i) _ hp hpal hg] at h'
    exact (Except.ok.inj h').symm

end MyOs
