import MyOs.Userprog.Process

/-!
# Calls of the allocator that cannot be met

What `malloc_page` and `get_a_page` do when addresses or frames run out, in both builds of `debug.h`,
and which addresses `get_a_page` accepts.

    mallocPage_clean_iff     a request fails cleanly exactly when the scan for addresses returns -1
    getAPage_balanced_iff    get_a_page gives its lock back exactly when its pool has a free frame
    getAPage_accepts_iff     the test of bit_idx against the region of the bitmap
-/

namespace MyOs

/-! ## What the calls leave alone -/

/-- Only memory and the bitmaps of the pools may differ. -/
structure PoolsOnly (s s' : Vm) : Prop where
  kernelVaddr : s'.kernelVaddr = s.kernelVaddr
  task : s'.task = s.task
  cur : s'.cur = s.cur
  lock : ∀ pf, (s'.pool pf).lock = (s.pool pf).lock

theorem PoolsOnly.refl (s : Vm) : PoolsOnly s s := ⟨rfl, rfl, rfl, fun _ => rfl⟩

theorem PoolsOnly.trans {s s1 s' : Vm} (h1 : PoolsOnly s s1) (h2 : PoolsOnly s1 s') : PoolsOnly s s' :=
  ⟨h2.kernelVaddr.trans h1.kernelVaddr, h2.task.trans h1.task, h2.cur.trans h1.cur,
    fun pf => (h2.lock pf).trans (h1.lock pf)⟩

variable {b : Build} {s s' : Vm}

theorem storeWord_poolsOnly {v w : Nat} (h : storeWord s v w = .ok s') : PoolsOnly s s' := by
  unfold storeWord at h
  obtain ⟨mem, -, h⟩ := (bind_eq_ok _ _ _).mp h
  cases h
  refine ⟨rfl, rfl, rfl, ?_⟩
  intro pf
  cases pf <;> rfl

theorem memsetZero_poolsOnly {dst size : Nat} (h : memsetZero b s dst size = .ok s') : PoolsOnly s s' := by
  unfold memsetZero at h
  obtain ⟨-, -, h⟩ := (bind_eq_ok _ _ _).mp h
  obtain ⟨mem, -, h⟩ := (bind_eq_ok _ _ _).mp h
  cases h
  refine ⟨rfl, rfl, rfl, ?_⟩
  intro pf
  cases pf <;> rfl

theorem palloc_lock {pool pool' : Pool} {a : Nat} (h : palloc b pool = .ok (a, pool')) :
    pool'.lock = pool.lock := by
  unfold palloc at h
  obtain ⟨r, -, h⟩ := (bind_eq_ok _ _ _).mp h
  cases r with
  | none =>
    cases h
    rfl
  | some i =>
    obtain ⟨btmp, -, h⟩ := (bind_eq_ok _ _ _).mp h
    cases h
    rfl

theorem pallocFrom_poolsOnly {pf : PoolFlags} {a : Nat} (h : pallocFrom b s pf = .ok (a, s')) :
    PoolsOnly s s' := by
  unfold pallocFrom at h
  cases pf with
  | PF_KERNEL =>
    obtain ⟨⟨a', pool⟩, hp, h⟩ := (bind_eq_ok _ _ _).mp h
    cases h
    refine ⟨rfl, rfl, rfl, ?_⟩
    intro pf
    cases pf with
    | PF_KERNEL => exact palloc_lock hp
    | PF_USER => rfl
  | PF_USER =>
    obtain ⟨⟨a', pool⟩, hp, h⟩ := (bind_eq_ok _ _ _).mp h
    cases h
    refine ⟨rfl, rfl, rfl, ?_⟩
    intro pf
    cases pf with
    | PF_KERNEL => rfl
    | PF_USER => exact palloc_lock hp

theorem pageTableAdd_poolsOnly {v a : Nat} (h : pageTableAdd b s v a = .ok s') : PoolsOnly s s' := by
  unfold pageTableAdd at h
  obtain ⟨pdeVal, -, h⟩ := (bind_eq_ok _ _ _).mp h
  split at h
  · obtain ⟨pteVal, -, h⟩ := (bind_eq_ok _ _ _).mp h
    obtain ⟨-, -, h⟩ := (bind_eq_ok _ _ _).mp h
    split at h
    · exact storeWord_poolsOnly h
    · cases h
  · obtain ⟨⟨pdePhyaddr, pool⟩, hp, h⟩ := (bind_eq_ok _ _ _).mp h
    obtain ⟨s1, h1, h⟩ := (bind_eq_ok _ _ _).mp h
    obtain ⟨s2, h2, h⟩ := (bind_eq_ok _ _ _).mp h
    obtain ⟨pteVal, -, h⟩ := (bind_eq_ok _ _ _).mp h
    obtain ⟨-, -, h⟩ := (bind_eq_ok _ _ _).mp h
    have h0 : PoolsOnly s { s with kernelPool := pool } := by
      refine ⟨rfl, rfl, rfl, ?_⟩
      intro pf
      cases pf with
      | PF_KERNEL => exact palloc_lock hp
      | PF_USER => rfl
    exact ((h0.trans (storeWord_poolsOnly h1)).trans (memsetZero_poolsOnly h2)).trans (storeWord_poolsOnly h)

/-- The frame loop of `malloc_page`, whether it gets all its frames or not. -/
theorem mallocLoop_poolsOnly {pf : PoolFlags} {start a : Nat} : ∀ (n v : Nat) (s : Vm),
    mallocLoop b pf start n v s = .ok (a, s') → PoolsOnly s s' := by
  intro n
  induction n with
  | zero =>
    intro v s h
    cases h
    exact PoolsOnly.refl _
  | succ n ih =>
    intro v s h
    unfold mallocLoop at h
    obtain ⟨⟨f, s1⟩, h1, h⟩ := (bind_eq_ok _ _ _).mp h
    dsimp only at h
    split at h
    · cases h
      exact pallocFrom_poolsOnly h1
    · obtain ⟨s2, h2, h⟩ := (bind_eq_ok _ _ _).mp h
      exact ((pallocFrom_poolsOnly h1).trans (pageTableAdd_poolsOnly h2)).trans (ih _ _ h)

/-! ## malloc_page -/

/-- The address pool a request is served from. -/
def Vm.addrPool (s : Vm) : PoolFlags → VirtualAddr
  | .PF_KERNEL => s.kernelVaddr
  | .PF_USER => (s.task s.cur).userprogVaddr

/-- `malloc_page` returns `NULL` and leaves the bitmaps and the page tables as they were. -/
def CleanFailure (b : Build) (s : Vm) (pf : PoolFlags) (pgCnt : Nat) : Prop :=
  ∃ s', mallocPage b s pf pgCnt = .ok (NULL, s') ∧
    (∀ pf, (s'.addrPool pf).vaddrBitmap = (s.addrPool pf).vaddrBitmap) ∧
    (∀ pf, (s'.pool pf).poolBitmap = (s.pool pf).poolBitmap) ∧ s'.mem = s.mem

/-- Every run of `cnt` bits that starts in the bitmap and ends there or one bit after it has a set bit;
in a build with `ASSERT` the bitmap has a clear bit. -/
def ScanFails (b : Build) (btmp : Bitmap) (cnt : Nat) : Prop :=
  (b = .ndebug ∨ ∃ i, i < 8 * btmp.btmpBytesLen ∧ btmp.bit i = false) ∧
    ∀ s, s < 8 * btmp.btmpBytesLen → s + cnt ≤ 8 * btmp.btmpBytesLen + 1 →
      ∃ j, s ≤ j ∧ j < s + cnt ∧ btmp.bit j = true

theorem bitmapScan_none_iff (b : Build) (btmp : Bitmap) (cnt : Nat) (hc : 0 < cnt) :
    bitmapScan b btmp cnt = .ok none ↔ ScanFails b btmp cnt := by
  by_cases hclear : ∃ i, i < 8 * btmp.btmpBytesLen ∧ btmp.bit i = false
  · rcases bitmapScan_spec b btmp cnt hc hclear with ⟨s, hs, hf⟩ | ⟨hs, hspoilt⟩
    · refine iff_of_false ?_ ?_
      · intro he
        rw [hs] at he
        cases he
      · rintro ⟨-, h⟩
        obtain ⟨j, h1, h2, hj⟩ := h s hf.start hf.bound
        have hcl := hf.clear (j - s) (by omega)
        rw [show s + (j - s) = j by omega, hj] at hcl
        cases hcl
    · exact iff_of_true hs ⟨.inr hclear, hspoilt⟩
  · have hset : ∀ i, i < 8 * btmp.btmpBytesLen → btmp.bit i = true := by
      intro i hi
      by_contra h
      exact hclear ⟨i, hi, by simpa using h⟩
    rw [bitmapScan_full b btmp cnt hset]
    cases b with
    | debug =>
      refine iff_of_false (by simp) ?_
      rintro ⟨h | h, -⟩
      · cases h
      · exact hclear h
    | ndebug => exact iff_of_true rfl ⟨.inl rfl, fun s hs _ => ⟨s, by omega, by omega, hset s hs⟩⟩

/-- A scan that finds a run leaves a bit set that was clear. -/
theorem vaddrTake_changes {va va' : VirtualAddr} {n a : Nat} (hn : 0 < n)
    (hscan : bitmapScan b va.vaddrBitmap n ≠ .ok none) (h : vaddrTake b va n = .ok (a, va')) :
    va'.vaddrBitmap ≠ va.vaddrBitmap := by
  unfold vaddrTake at h
  obtain ⟨r, hr, h⟩ := (bind_eq_ok _ _ _).mp h
  cases r with
  | none => exact absurd hr hscan
  | some st =>
    obtain ⟨btmp, hset, h⟩ := (bind_eq_ok _ _ _).mp h
    obtain ⟨-, hbit⟩ := setRun_bit b st n 0 _ _ hset
    cases h
    have hclear := (bitmapScan_some b _ n st hn hr).clear 0 hn
    intro he
    have hst := hbit st
    rw [show btmp = va.vaddrBitmap from he, show st = st + 0 from rfl, hclear] at hst
    simp at hst
    omega

theorem vaddrGet_none {pf : PoolFlags} {n : Nat}
    (h : bitmapScan b (s.addrPool pf).vaddrBitmap n = .ok none) : vaddrGet b s pf n = .ok (NULL, s) := by
  cases pf with
  | PF_KERNEL =>
    have hk : bitmapScan b s.kernelVaddr.vaddrBitmap n = .ok none := h
    simp [vaddrGet, vaddrTake, hk, bind, Except.bind]
  | PF_USER =>
    have hu : bitmapScan b (s.task s.cur).userprogVaddr.vaddrBitmap n = .ok none := h
    cases b <;> simp [vaddrGet, vaddrTake, hu, bind, Except.bind, assert, NULL]

theorem vaddrGet_changes {pf : PoolFlags} {n a : Nat} (hn : 0 < n)
    (hscan : bitmapScan b (s.addrPool pf).vaddrBitmap n ≠ .ok none) (h : vaddrGet b s pf n = .ok (a, s')) :
    (s'.addrPool pf).vaddrBitmap ≠ (s.addrPool pf).vaddrBitmap := by
  unfold vaddrGet at h
  cases pf with
  | PF_KERNEL =>
    obtain ⟨⟨a', va⟩, ht, h⟩ := (bind_eq_ok _ _ _).mp h
    cases h
    exact vaddrTake_changes hn hscan ht
  | PF_USER =>
    obtain ⟨⟨a', va⟩, ht, h⟩ := (bind_eq_ok _ _ _).mp h
    obtain ⟨-, -, h⟩ := (bind_eq_ok _ _ _).mp h
    cases h
    have hne := vaddrTake_changes hn hscan ht
    simpa [Vm.addrPool] using hne

theorem PoolsOnly.addrPool {s s' : Vm} (h : PoolsOnly s s') (pf : PoolFlags) : s'.addrPool pf = s.addrPool pf := by
  cases pf with
  | PF_KERNEL => exact h.kernelVaddr
  | PF_USER =>
    show (s'.task s'.cur).userprogVaddr = (s.task s.cur).userprogVaddr
    rw [h.task, h.cur]

/-- With a run found, the call changes the address bitmap, whatever it returns. -/
theorem mallocPage_changes {pf : PoolFlags} {n a : Nat} (hn : 0 < n)
    (hscan : bitmapScan b (s.addrPool pf).vaddrBitmap n ≠ .ok none) (h : mallocPage b s pf n = .ok (a, s')) :
    (s'.addrPool pf).vaddrBitmap ≠ (s.addrPool pf).vaddrBitmap := by
  unfold mallocPage at h
  obtain ⟨-, -, h⟩ := (bind_eq_ok _ _ _).mp h
  obtain ⟨⟨start, s1⟩, h1, h⟩ := (bind_eq_ok _ _ _).mp h
  have hne := vaddrGet_changes hn hscan h1
  dsimp only at h
  split at h
  · cases h
    exact hne
  · rw [(mallocLoop_poolsOnly _ _ _ h).addrPool]
    exact hne

/-- **A request fails cleanly** exactly when the scan for addresses returns `-1`.  Once addresses are
taken nothing gives them back: not when a frame is missing later, and not when the run that was found
ends after the bitmap. -/
theorem mallocPage_clean_iff (b : Build) (s : Vm) (pf : PoolFlags) (pgCnt : Nat) (h0 : 0 < pgCnt)
    (h1 : pgCnt < 3840) :
    CleanFailure b s pf pgCnt ↔ ScanFails b (s.addrPool pf).vaddrBitmap pgCnt := by
  rw [← bitmapScan_none_iff b _ pgCnt h0]
  constructor
  · rintro ⟨s', hm, haddr, -, -⟩
    by_contra hscan
    exact mallocPage_changes h0 hscan hm (haddr pf)
  · intro hscan
    refine ⟨s, ?_, fun _ => rfl, fun _ => rfl, rfl⟩
    unfold mallocPage
    rw [vaddrGet_none hscan]
    cases b <;> simp [assert, h0, h1, bind, Except.bind]

/-- A machine with eight frames for the kernel and eight kernel addresses. -/
def smallVm : Vm := bootVm 0x210000 (fun _ _ => 0) (fun _ _ => 0)

theorem mallocPage_clean_iff_small :
    CleanFailure .debug smallVm .PF_KERNEL 10 ↔
      ScanFails .debug (smallVm.addrPool .PF_KERNEL).vaddrBitmap 10 :=
  mallocPage_clean_iff .debug smallVm .PF_KERNEL 10 (by decide) (by decide)

/-- Nine addresses are asked for and there are eight.  Neither build fails cleanly: the scan finds nine
clear bits, the last of them after the bitmap. -/
theorem mallocPage_unclean : (¬ ∃ st, (smallVm.addrPool .PF_KERNEL).vaddrBitmap.FreeRun 9 st) ∧
    ¬ CleanFailure .debug smallVm .PF_KERNEL 9 ∧ ¬ CleanFailure .ndebug smallVm .PF_KERNEL 9 := by
  have hlen : (smallVm.addrPool .PF_KERNEL).vaddrBitmap.btmpBytesLen = 1 := by decide
  have hscan : ∀ b, bitmapScan b (smallVm.addrPool .PF_KERNEL).vaddrBitmap 9 = .ok (some 0) := by
    intro b
    cases b <;> decide
  have hnot : ∀ b, ¬ CleanFailure b smallVm .PF_KERNEL 9 := by
    rintro b ⟨s', hm, haddr, -, -⟩
    refine mallocPage_changes (by decide) ?_ hm (haddr .PF_KERNEL)
    rw [hscan b]
    simp
  refine ⟨?_, hnot .debug, hnot .ndebug⟩
  rintro ⟨st, hb, -⟩
  rw [hlen] at hb
  omega

/-! ## get_a_page: the addresses it accepts -/

/-- Address `vaddr` lies in the region of an address pool. -/
def VirtualAddr.Covers (va : VirtualAddr) (vaddr : Nat) : Prop :=
  va.vaddrStart ≤ vaddr ∧ vaddr < va.vaddrStart + 8 * va.vaddrBitmap.btmpBytesLen * PG_SIZE

/-- For a process, the test of `bit_idx` passes exactly for the addresses of its region, and then
`bitmap_set` writes a byte of the bitmap. -/
def AcceptsRegion (s : Vm) (vaddr : Nat) : Prop :=
  ((∃ s', markPage .debug s .PF_USER vaddr = .ok s') ↔ (s.addrPool .PF_USER).Covers vaddr) ∧
    ((∃ s', markPage .debug s .PF_USER vaddr = .ok s') →
      pageIdx vaddr (s.addrPool .PF_USER).vaddrStart / 8 < (s.addrPool .PF_USER).vaddrBitmap.btmpBytesLen)

theorem assert_true (b : Build) (func condition : String) : assert b func condition true = .ok () := by
  cases b <;> rfl

/-- The ASSERT is the only thing `get_a_page` tests about the address. -/
theorem markPage_returns_iff (s : Vm) (vaddr : Nat) (hp : (s.task s.cur).pgdir ≠ NULL) :
    (∃ s', markPage .debug s .PF_USER vaddr = .ok s') ↔
      0 < pageIdx vaddr (s.addrPool .PF_USER).vaddrStart := by
  have hdef : (s.addrPool .PF_USER).vaddrStart = (s.task s.cur).userprogVaddr.vaddrStart := rfl
  rw [hdef]
  simp only [markPage, hp, ne_eq, not_false_eq_true, true_and, if_true]
  generalize pageIdx vaddr (s.task s.cur).userprogVaddr.vaddrStart = bitIdx
  constructor
  · rintro ⟨s', h⟩
    obtain ⟨u, ha, -⟩ := (bind_eq_ok _ _ _).mp h
    exact of_decide_eq_true ((assert_debug_ok _ _ _ _).mp ha)
  · intro h
    rw [decide_eq_true h, assert_true, bitmapSet_one]
    exact ⟨_, rfl⟩

theorem pageIdx_above {vaddr start : Nat} (hv : vaddr < 2 ^ 32) (h : start ≤ vaddr) :
    pageIdx vaddr start = (vaddr - start) / PG_SIZE := by
  unfold pageIdx
  rw [show vaddr + 2 ^ 32 - start = (vaddr - start) + 2 ^ 32 by omega, Nat.add_mod_right,
    Nat.mod_eq_of_lt (by omega)]

/-- An address below the region wraps around, past the end of the bitmap. -/
theorem pageIdx_below_pos {vaddr start : Nat} (hs : start + PG_SIZE ≤ 2 ^ 32) (h : vaddr < start) :
    0 < pageIdx vaddr start := by
  unfold pageIdx
  rw [Nat.mod_eq_of_lt (by omega)]
  exact Nat.div_pos (by omega) (by decide)

/-- **Which addresses `get_a_page` accepts.**  Its test agrees with the region only from the second page
of the region on: `bit_idx > 0` refuses the first page, and nothing tests the other end, which the
addresses below the region reach by wrapping around. -/
theorem getAPage_accepts_iff (s : Vm) (vaddr : Nat) (hv : vaddr < 2 ^ 32)
    (hp : (s.task s.cur).pgdir ≠ NULL) (hstart : (s.addrPool .PF_USER).vaddrStart = USER_VADDR_START) :
    AcceptsRegion s vaddr ↔
      (USER_VADDR_START + PG_SIZE ≤ vaddr ∧
        vaddr < USER_VADDR_START + 8 * (s.addrPool .PF_USER).vaddrBitmap.btmpBytesLen * PG_SIZE) ∨
      ((s.addrPool .PF_USER).vaddrBitmap.btmpBytesLen = 0 ∧ USER_VADDR_START ≤ vaddr ∧
        vaddr < USER_VADDR_START + PG_SIZE) := by
  unfold AcceptsRegion VirtualAddr.Covers
  rw [markPage_returns_iff s vaddr hp, hstart]
  generalize (s.addrPool .PF_USER).vaddrBitmap.btmpBytesLen = len
  by_cases hlow : vaddr < USER_VADDR_START
  · have hpos : 0 < pageIdx vaddr USER_VADDR_START := pageIdx_below_pos (by decide) hlow
    refine iff_of_false ?_ (by omega)
    rintro ⟨h, -⟩
    have := (h.mp hpos).1
    omega
  · rw [pageIdx_above hv (by omega)]
    have hsplit := Nat.div_add_mod (vaddr - USER_VADDR_START) PG_SIZE
    have hmod := Nat.mod_lt (vaddr - USER_VADDR_START) (show 0 < PG_SIZE by decide)
    generalize USER_VADDR_START = start at hlow hsplit hmod ⊢
    unfold PG_SIZE at hsplit hmod ⊢
    omega

/-- A process as `process_execute` leaves it. -/
def procVm : Vm :=
  { smallVm with task := fun _ => { pgdir := K_HEAP_START, userprogVaddr := newUserVaddr } }

theorem getAPage_accepts_iff_stack :
    AcceptsRegion procVm 0xbffff000 ↔
      (USER_VADDR_START + PG_SIZE ≤ 0xbffff000 ∧
        0xbffff000 < USER_VADDR_START +
          8 * (procVm.addrPool .PF_USER).vaddrBitmap.btmpBytesLen * PG_SIZE) ∨
      ((procVm.addrPool .PF_USER).vaddrBitmap.btmpBytesLen = 0 ∧ USER_VADDR_START ≤ 0xbffff000 ∧
        0xbffff000 < USER_VADDR_START + PG_SIZE) :=
  getAPage_accepts_iff procVm 0xbffff000 (by decide) (by decide) rfl

/-- The first page of the region is refused, and a page below the region accepted. -/
theorem getAPage_misjudges : ¬ AcceptsRegion procVm USER_VADDR_START ∧ ¬ AcceptsRegion procVm 0x1000 := by
  refine ⟨?_, ?_⟩
  · rintro ⟨h, -⟩
    rw [markPage_returns_iff procVm _ (by decide)] at h
    exact absurd (h.mpr ⟨by decide, by decide⟩) (by decide)
  · rintro ⟨h, -⟩
    rw [markPage_returns_iff procVm _ (by decide)] at h
    exact absurd (h.mp (by decide)).1 (by decide)

/-! ## get_a_page: its lock -/

/-- A lock that `cur` takes without waiting: free, or its own already. -/
def Lock.Settled (lock : Lock) (cur : Tid) : Prop :=
  (lock.holder = none ∧ lock.holderRepeatNr = 0 ∧ lock.semaphore.value = 1) ∨
    (lock.holder = some cur ∧ 0 < lock.holderRepeatNr ∧ lock.holderRepeatNr + 1 < 2 ^ 32)

structure Lock.Same (lock lock' : Lock) : Prop where
  holder : lock'.holder = lock.holder
  holderRepeatNr : lock'.holderRepeatNr = lock.holderRepeatNr
  value : lock'.semaphore.value = lock.semaphore.value

/-- `lock_acquire` and `lock_release`, one after the other. -/
theorem Lock.Settled.acquire_release {lock : Lock} {cur : Tid} (h : lock.Settled cur) :
    ∃ lock1, lockAcquire .ndebug cur lock = .ok lock1 ∧ lock1.holderRepeatNr ≠ lock.holderRepeatNr ∧
      ∃ lock2, lockRelease .ndebug cur lock1 = .ok lock2 ∧ lock.Same lock2 := by
  rcases h with ⟨hh, hn, hv⟩ | ⟨hh, hn, hb⟩
  · refine ⟨⟨some cur, ⟨0, lock.semaphore.waiters⟩, 1⟩, ?_, ?_, ?_⟩
    · simp [lockAcquire, hh, semaDown, hv, assert, bind, Except.bind]
    · simp [hn]
    · refine ⟨⟨none, ⟨1, lock.semaphore.waiters.tail⟩, 0⟩, ?_, ?_⟩
      · simp [lockRelease, semaUp, assert, bind, Except.bind]
      · exact ⟨hh.symm, hn.symm, hv.symm⟩
  · refine ⟨⟨lock.holder, lock.semaphore, lock.holderRepeatNr + 1⟩, ?_, ?_, ?_⟩
    · simp [lockAcquire, hh]
      omega
    · simp
    · refine ⟨lock, ?_, rfl, rfl, rfl⟩
      have hgt : lock.holderRepeatNr + 1 > 1 := by omega
      simp [lockRelease, assert, hgt, bind, Except.bind]

/-- The states of a lock when `cur` asks for it: one that it takes, or one that somebody else holds. -/
def Lock.Sound (lock : Lock) (cur : Tid) : Prop :=
  lock.Settled cur ∨ ∃ t, t ≠ cur ∧ lock.holder = some t ∧ lock.semaphore.value = 0

/-- On every return the lock of the pool is as on entry, and so are the addresses when `NULL` is
returned. -/
def Balanced (s : Vm) (pf : PoolFlags) (vaddr : Nat) : Prop :=
  ∀ a s', getAPage .ndebug s pf vaddr = .ok (a, s') →
    (s.pool pf).lock.Same (s'.pool pf).lock ∧
      (a = NULL → ∀ i, i < 8 * (s.addrPool pf).vaddrBitmap.btmpBytesLen →
        (s'.addrPool pf).vaddrBitmap.bit i = (s.addrPool pf).vaddrBitmap.bit i)

/-- The requests `get_a_page` answers with `PANIC`: user pages for a kernel thread, kernel pages for a
process. -/
def Refused (s : Vm) (pf : PoolFlags) : Prop :=
  (pf = .PF_USER ∧ (s.task s.cur).pgdir = NULL) ∨ (pf = .PF_KERNEL ∧ (s.task s.cur).pgdir ≠ NULL)

/-- The state after `bitmap_set` in `get_a_page`. -/
def Vm.marked (s : Vm) (pf : PoolFlags) (vaddr : Nat) : Vm :=
  let va := s.addrPool pf
  let va := { va with vaddrBitmap := va.vaddrBitmap.write (pageIdx vaddr va.vaddrStart) 1 }
  match pf with
  | .PF_KERNEL => { s with kernelVaddr := va }
  | .PF_USER => { s with task := Function.update s.task s.cur { s.task s.cur with userprogVaddr := va } }

theorem assert_ndebug (func condition : String) (c : Bool) : assert .ndebug func condition c = .ok () := rfl

theorem markPage_refused {pf : PoolFlags} (h : Refused s pf) (vaddr : Nat) :
    ∃ e, markPage .ndebug s pf vaddr = .error e := by
  rcases h with ⟨rfl, hp⟩ | ⟨rfl, hp⟩
  · simp only [markPage, hp, ne_eq, not_true_eq_false, false_and, if_false, reduceCtorEq, and_false]
    exact ⟨_, rfl⟩
  · simp only [markPage, hp, reduceCtorEq, and_false, false_and, if_false]
    exact ⟨_, rfl⟩

theorem markPage_ndebug (s : Vm) (pf : PoolFlags) (vaddr : Nat) (h : ¬ Refused s pf) :
    markPage .ndebug s pf vaddr = .ok (s.marked pf vaddr) := by
  unfold Refused at h
  cases pf with
  | PF_KERNEL =>
    have hp : (s.task s.cur).pgdir = NULL := by
      by_contra hp
      exact h (.inr ⟨rfl, hp⟩)
    simp only [markPage, hp, ne_eq, not_true_eq_false, false_and, if_false, true_and, if_true,
      assert_ndebug, bitmapSet_one]
    rfl
  | PF_USER =>
    have hp : (s.task s.cur).pgdir ≠ NULL := fun hp => h (.inl ⟨rfl, hp⟩)
    simp only [markPage, hp, ne_eq, not_false_eq_true, true_and, if_true, assert_ndebug, bitmapSet_one]
    rfl

@[simp] theorem setPoolLock_pool (s : Vm) (pf : PoolFlags) (lock : Lock) :
    (s.setPoolLock pf lock).pool pf = { s.pool pf with lock := lock } := by
  cases pf <;> rfl

@[simp] theorem setPoolLock_addrPool (s : Vm) (pf pf' : PoolFlags) (lock : Lock) :
    (s.setPoolLock pf lock).addrPool pf' = s.addrPool pf' := by
  cases pf <;> cases pf' <;> rfl

@[simp] theorem setPoolLock_cur (s : Vm) (pf : PoolFlags) (lock : Lock) : (s.setPoolLock pf lock).cur = s.cur := by
  cases pf <;> rfl

theorem setPoolLock_refused (s : Vm) (pf pf' : PoolFlags) (lock : Lock) :
    Refused (s.setPoolLock pf lock) pf' ↔ Refused s pf' := by
  cases pf <;> exact Iff.rfl

@[simp] theorem marked_pool (s : Vm) (pf pf' : PoolFlags) (vaddr : Nat) :
    (s.marked pf vaddr).pool pf' = s.pool pf' := by
  cases pf <;> cases pf' <;> rfl

@[simp] theorem marked_cur (s : Vm) (pf : PoolFlags) (vaddr : Nat) : (s.marked pf vaddr).cur = s.cur := by
  cases pf <;> rfl

theorem marked_bitmap (s : Vm) (pf : PoolFlags) (vaddr : Nat) :
    ((s.marked pf vaddr).addrPool pf).vaddrBitmap =
      (s.addrPool pf).vaddrBitmap.write (pageIdx vaddr (s.addrPool pf).vaddrStart) 1 := by
  cases pf with
  | PF_KERNEL => rfl
  | PF_USER => simp [Vm.marked, Vm.addrPool]

theorem pallocFrom_none {pf : PoolFlags} (h : bitmapScan b (s.pool pf).poolBitmap 1 = .ok none) :
    pallocFrom b s pf = .ok (NULL, s) := by
  cases pf with
  | PF_KERNEL =>
    have hk : bitmapScan b s.kernelPool.poolBitmap 1 = .ok none := h
    simp [pallocFrom, palloc, hk, bind, Except.bind]
  | PF_USER =>
    have hu : bitmapScan b s.userPool.poolBitmap 1 = .ok none := h
    simp [pallocFrom, palloc, hu, bind, Except.bind]

theorem palloc_null {pool pool' : Pool} (hstart : 0 < pool.phyAddrStart)
    (h : palloc b pool = .ok (NULL, pool')) : bitmapScan b pool.poolBitmap 1 = .ok none := by
  unfold palloc at h
  obtain ⟨r, hr, h⟩ := (bind_eq_ok _ _ _).mp h
  cases r with
  | none => exact hr
  | some i =>
    obtain ⟨btmp, -, h⟩ := (bind_eq_ok _ _ _).mp h
    simp only [pure_eq_ok, Except.ok.injEq, Prod.mk.injEq, NULL] at h
    omega

theorem pallocFrom_null {pf : PoolFlags} (hstart : 0 < (s.pool pf).phyAddrStart)
    (h : pallocFrom b s pf = .ok (NULL, s')) : bitmapScan b (s.pool pf).poolBitmap 1 = .ok none := by
  unfold pallocFrom at h
  cases pf with
  | PF_KERNEL =>
    obtain ⟨⟨a, pool⟩, hp, h⟩ := (bind_eq_ok _ _ _).mp h
    cases h
    exact palloc_null hstart hp
  | PF_USER =>
    obtain ⟨⟨a, pool⟩, hp, h⟩ := (bind_eq_ok _ _ _).mp h
    cases h
    exact palloc_null hstart hp

/-- In a build without `ASSERT`, `palloc` gives up exactly when every bit of its bitmap is set. -/
theorem scan_one_none_iff (btmp : Bitmap) :
    bitmapScan .ndebug btmp 1 = .ok none ↔ ∀ i, i < 8 * btmp.btmpBytesLen → btmp.bit i = true := by
  rw [bitmapScan_none_iff .ndebug btmp 1 (by decide)]
  constructor
  · rintro ⟨-, h⟩ i hi
    obtain ⟨j, h1, h2, hj⟩ := h i hi (by omega)
    rwa [show i = j by omega]
  · intro h
    exact ⟨.inl rfl, fun i hi _ => ⟨i, le_rfl, by omega, h i hi⟩⟩

/-- The return in the middle. -/
theorem getAPage_exhausted {pf : PoolFlags} {lock : Lock} (vaddr : Nat)
    (hacq : lockAcquire .ndebug s.cur (s.pool pf).lock = .ok lock) (href : ¬ Refused s pf)
    (hfull : ∀ i, i < 8 * (s.pool pf).poolBitmap.btmpBytesLen → (s.pool pf).poolBitmap.bit i = true) :
    getAPage .ndebug s pf vaddr = .ok (NULL, (s.setPoolLock pf lock).marked pf vaddr) := by
  have hmark := markPage_ndebug (s.setPoolLock pf lock) pf vaddr (by rwa [setPoolLock_refused])
  have hscan : bitmapScan .ndebug (((s.setPoolLock pf lock).marked pf vaddr).pool pf).poolBitmap 1 =
      .ok none := by
    rw [marked_pool, setPoolLock_pool]
    exact (scan_one_none_iff _).mpr hfull
  unfold getAPage
  simp only [hacq, hmark, pallocFrom_none hscan, bind, Except.bind, if_true]
  rfl

/-- The lock is given back before the return at the end. -/
theorem getAPage_served {pf : PoolFlags} {vaddr a : Nat} (hset : (s.pool pf).lock.Settled s.cur)
    (hstart : 0 < (s.pool pf).phyAddrStart)
    (hfree : ∃ i, i < 8 * (s.pool pf).poolBitmap.btmpBytesLen ∧ (s.pool pf).poolBitmap.bit i = false)
    (h : getAPage .ndebug s pf vaddr = .ok (a, s')) :
    a = vaddr ∧ (s.pool pf).lock.Same (s'.pool pf).lock ∧
      (s'.addrPool pf).vaddrBitmap =
        (s.addrPool pf).vaddrBitmap.write (pageIdx vaddr (s.addrPool pf).vaddrStart) 1 := by
  obtain ⟨lock1, hacq, -, lock2, hrel, hsame⟩ := hset.acquire_release
  unfold getAPage at h
  obtain ⟨lock, hl, h⟩ := (bind_eq_ok _ _ _).mp h
  rw [hacq] at hl
  cases hl
  obtain ⟨s1, hmark, h⟩ := (bind_eq_ok _ _ _).mp h
  have href : ¬ Refused (s.setPoolLock pf lock1) pf := by
    intro href
    obtain ⟨e, he⟩ := markPage_refused href vaddr
    rw [hmark] at he
    cases he
  rw [markPage_ndebug _ _ _ href] at hmark
  cases hmark
  obtain ⟨⟨p, s2⟩, hpal, h⟩ := (bind_eq_ok _ _ _).mp h
  have h2 := pallocFrom_poolsOnly hpal
  have hp : p ≠ NULL := by
    rintro rfl
    have hnone := pallocFrom_null (by simpa using hstart) hpal
    rw [marked_pool, setPoolLock_pool] at hnone
    obtain ⟨i, hi, hclear⟩ := hfree
    rw [(scan_one_none_iff _).mp hnone i hi] at hclear
    cases hclear
  dsimp only at h
  rw [if_neg hp] at h
  obtain ⟨s3, hadd, h⟩ := (bind_eq_ok _ _ _).mp h
  have h3 := h2.trans (pageTableAdd_poolsOnly hadd)
  have hrel3 : lockRelease .ndebug s3.cur (s3.pool pf).lock = .ok lock2 := by
    rw [h3.cur, h3.lock, marked_pool, setPoolLock_pool, marked_cur, setPoolLock_cur]
    exact hrel
  simp only [hrel3, pure_eq_ok, bind, Except.bind, Except.ok.injEq, Prod.mk.injEq] at h
  obtain ⟨rfl, rfl⟩ := h
  refine ⟨rfl, ?_, ?_⟩
  · rw [setPoolLock_pool]
    exact hsame
  · rw [setPoolLock_addrPool, h3.addrPool, marked_bitmap, setPoolLock_addrPool]

/-- **`get_a_page` gives its lock back** exactly when it finds a frame.  The calls it refuses with
`PANIC`, and the calls that wait for the lock, do not return. -/
theorem getAPage_balanced_iff (s : Vm) (pf : PoolFlags) (vaddr : Nat) (hlock : (s.pool pf).lock.Sound s.cur)
    (hstart : 0 < (s.pool pf).phyAddrStart) (hlow : 0 < (s.addrPool pf).vaddrStart)
    (hhigh : (s.addrPool pf).vaddrStart +
      8 * (s.addrPool pf).vaddrBitmap.btmpBytesLen * PG_SIZE ≤ 2 ^ 32) :
    Balanced s pf vaddr ↔
      (∃ i, i < 8 * (s.pool pf).poolBitmap.btmpBytesLen ∧ (s.pool pf).poolBitmap.bit i = false) ∨
      Refused s pf ∨ ∃ t, t ≠ s.cur ∧ (s.pool pf).lock.holder = some t := by
  constructor
  · intro hbal
    by_contra hno
    simp only [not_or, not_exists, not_and] at hno
    obtain ⟨hfull, href, hother⟩ := hno
    have hset : (s.pool pf).lock.Settled s.cur := by
      rcases hlock with h | ⟨t, ht, hh, -⟩
      · exact h
      · exact absurd hh (hother t ht)
    obtain ⟨lock1, hacq, hnr, -⟩ := hset.acquire_release
    have hret := getAPage_exhausted vaddr hacq href (fun i hi => by simpa using hfull i hi)
    have hsame := (hbal _ _ hret).1.holderRepeatNr
    rw [marked_pool, setPoolLock_pool] at hsame
    exact hnr hsame
  · rintro hor a s' h
    have hset : (s.pool pf).lock.Settled s.cur := by
      rcases hlock with hset | ⟨t, ht, hh, hv⟩
      · exact hset
      · -- somebody else holds the lock
        unfold getAPage at h
        simp [lockAcquire, hh, ht, semaDown, hv, bind, Except.bind] at h
    obtain ⟨lock1, hacq, -⟩ := hset.acquire_release
    rcases hor with hfree | href | ⟨t, ht, hh⟩
    · obtain ⟨rfl, hsame, hbits⟩ := getAPage_served hset hstart hfree h
      refine ⟨hsame, ?_⟩
      rintro rfl i hi
      rw [hbits, Bitmap.bit_write, if_neg]
      -- address 0 lies beyond the end of the bitmap
      unfold pageIdx NULL
      unfold PG_SIZE at hhigh ⊢
      omega
    · unfold getAPage at h
      obtain ⟨lock, hl, h⟩ := (bind_eq_ok _ _ _).mp h
      rw [hacq] at hl
      cases hl
      obtain ⟨s1, hmark, -⟩ := (bind_eq_ok _ _ _).mp h
      obtain ⟨e, he⟩ := markPage_refused ((setPoolLock_refused s pf pf lock1).mpr href) vaddr
      rw [hmark] at he
      cases he
    · rcases hset with ⟨hn, -⟩ | ⟨hc, -⟩
      · rw [hn] at hh
        cases hh
      · rw [hc] at hh
        exact absurd (Option.some.inj hh).symm ht

theorem getAPage_balanced_small : Balanced smallVm .PF_KERNEL 0xc0101000 := by
  refine (getAPage_balanced_iff smallVm .PF_KERNEL 0xc0101000 ?_ ?_ ?_ ?_).mpr ?_
  · exact .inl (.inl ⟨rfl, rfl, rfl⟩)
  · decide
  · decide
  · decide
  · exact .inl ⟨0, by decide, by decide⟩

/-- The same machine with its eight kernel frames handed out. -/
def fullVm : Vm :=
  { smallVm with
    kernelPool := { smallVm.kernelPool with poolBitmap := { btmpBytesLen := 1, bits := fun _ => 0xff } } }

/-- A kernel thread asks for one more page.  It gets `NULL` and keeps the lock of the kernel pool, so
that every other thread waits for it. -/
theorem getAPage_keepsLock : ¬ Balanced fullVm .PF_KERNEL 0xc0101000 ∧
    ∃ s', getAPage .ndebug fullVm .PF_KERNEL 0xc0101000 = .ok (NULL, s') ∧
      ∀ t, t ≠ fullVm.cur → lockAcquire .ndebug t (s'.pool .PF_KERNEL).lock = .error .blocked := by
  have hacq : lockAcquire .ndebug fullVm.cur (fullVm.pool .PF_KERNEL).lock =
      .ok ⟨some fullVm.cur, semaInit 0, 1⟩ := lockAcquire_free _ _
  have href : ¬ Refused fullVm .PF_KERNEL := by
    rintro (⟨h, -⟩ | ⟨-, h⟩)
    · cases h
    · exact h rfl
  have hret := getAPage_exhausted 0xc0101000 hacq href (by decide)
  refine ⟨?_, _, hret, ?_⟩
  · intro hbal
    have hsame := (hbal _ _ hret).1.holderRepeatNr
    rw [marked_pool, setPoolLock_pool] at hsame
    cases hsame
  · intro t ht
    rw [marked_pool, setPoolLock_pool]
    simp [lockAcquire, Ne.symm ht, semaDown, semaInit, bind, Except.bind]

end MyOs
