import MyOs.Kernel.Failure
import MyOs.Theory.Run

/-!
# kernel/memory.c under preemption

The entry points of the allocator as a step relation: every thread has a program counter, and a timer switch
may fall between any two steps.  A step is one `bitmap_scan` or `bitmap_set` with the code up to the next one; the
two locks are taken and released in steps of their own (that they exclude is `MyOs.Thread.Mutex`).  The `memset` of
the pages returned touches none of the state below and is left out.

Of the page tables the allocator only tests presence bits, so a table is the set of its present entries: the
tables of the kernel half are shared, those of the user half belong to the directory of a process.

    AllocSys.step                  the next step of a thread
    AllocTrans                     all transitions, with what each one needs
    allocTrans_of_step             there are no others
    palloc_alone, vaddrGet_alone   of a thread that is not preempted, the steps make up the calls of
                                   `MyOs.Kernel.Memory`
-/

namespace MyOs

inductive AllocCall where
  | getKernelPages (pgCnt : Nat)
  | getUserPages (pgCnt : Nat)
  | getAPage (pf : PoolFlags) (vaddr : Nat)
  deriving DecidableEq, Repr

def AllocCall.pf : AllocCall → PoolFlags
  | .getKernelPages _ => .PF_KERNEL
  | .getUserPages _ => .PF_USER
  | .getAPage pf _ => pf

def AllocCall.pgCnt : AllocCall → Nat
  | .getKernelPages pgCnt => pgCnt
  | .getUserPages pgCnt => pgCnt
  | .getAPage _ _ => 1

/-- The variables of the frame loop of `malloc_page`; `get_a_page` is one round of it. -/
structure FrameLoop where
  vaddrStart : Nat
  vaddr : Nat
  cnt : Nat
  deriving DecidableEq, Repr

/-- What a thread does next. -/
inductive AllocPc where
  | idle
  /-- `lock_acquire`, where the function has one -/
  | entry (c : AllocCall)
  /-- `bitmap_scan` in `vaddr_get` -/
  | vaddrScan (c : AllocCall)
  /-- round `cnt` of the loop of `bitmap_set` in `vaddr_get` -/
  | vaddrSet (c : AllocCall) (bitIdxStart cnt : Nat)
  /-- `bitmap_set` in `get_a_page` -/
  | mark (c : AllocCall)
  /-- `bitmap_scan` in `palloc(mem_pool)` -/
  | pallocScan (c : AllocCall) (l : FrameLoop)
  | pallocSet (c : AllocCall) (l : FrameLoop) (bitIdx : Nat)
  /-- `page_table_add` -/
  | tableTest (c : AllocCall) (l : FrameLoop)
  /-- `bitmap_scan` in its `palloc(&kernel_pool)` -/
  | tableScan (c : AllocCall) (l : FrameLoop)
  | tableSet (c : AllocCall) (l : FrameLoop) (bitIdx : Nat)
  /-- `lock_release`, where the path has one, and the return of `ret` -/
  | leave (c : AllocCall) (ret : Nat)
  deriving DecidableEq, Repr

/-- The state of the allocator, and what it returned so far, the latest first: the frames of `palloc`, the kernel
ranges of `vaddr_get`, and the kernel ranges of the entry points. -/
structure AllocSys where
  threads : List Tid
  /-- `kernel_pool` and `user_pool` -/
  pool : PoolFlags → Pool
  kernelVaddr : VirtualAddr
  task : Tid → TaskMem
  /-- the present page tables of the user half -/
  pde : Tid → Nat → Bool
  /-- the present entries, of the kernel half (`none`) and of the user half of a process -/
  pte : Option Tid → Nat → Bool
  pc : Tid → AllocPc
  frames : List Nat
  vaddrs : List Range
  ranges : List Range

namespace AllocSys

def setLock (s : AllocSys) (pf : PoolFlags) (lock : Lock) : AllocSys :=
  { s with pool := Function.update s.pool pf { s.pool pf with lock := lock } }

def setPoolBitmap (s : AllocSys) (pf : PoolFlags) (btmp : Bitmap) : AllocSys :=
  { s with pool := Function.update s.pool pf { s.pool pf with poolBitmap := btmp } }

/-- The address pool of a request of thread `t`. -/
def addrPool (s : AllocSys) (t : Tid) : PoolFlags → VirtualAddr
  | .PF_KERNEL => s.kernelVaddr
  | .PF_USER => (s.task t).userprogVaddr

def setAddrBitmap (s : AllocSys) (t : Tid) (pf : PoolFlags) (btmp : Bitmap) : AllocSys :=
  match pf with
  | .PF_KERNEL => { s with kernelVaddr := { s.kernelVaddr with vaddrBitmap := btmp } }
  | .PF_USER =>
    let va := { (s.task t).userprogVaddr with vaddrBitmap := btmp }
    { s with task := Function.update s.task t { s.task t with userprogVaddr := va } }

def goto (s : AllocSys) (t : Tid) (pc : AllocPc) : AllocSys := { s with pc := Function.update s.pc t pc }

/-- Whose table maps page `p` for thread `t`; a thread without a directory runs under the boot directory. -/
def space (s : AllocSys) (t : Tid) (p : Nat) : Option Tid :=
  if 768 ≤ p / 1024 ∨ (s.task t).pgdir = NULL then none else some t

/-- `*pde & 1`: the tables of the kernel half are all there. -/
def pdePresent (s : AllocSys) (t : Tid) (p : Nat) : Bool :=
  match s.space t p with
  | none => true
  | some t => s.pde t (p / 1024)

def mapPage (s : AllocSys) (t : Tid) (p : Nat) : AllocSys :=
  { s with pte := Function.update s.pte (s.space t p) (Function.update (s.pte (s.space t p)) p true) }

/-- A new table for page `p`: zeroed, then the entry of `p`. -/
def newTable (s : AllocSys) (t : Tid) (p : Nat) : AllocSys :=
  let pte := s.pte (s.space t p)
  let zeroed := fun q => if q / 1024 = p / 1024 then false else pte q
  { s with
    pde := Function.update s.pde t (Function.update (s.pde t) (p / 1024) true)
    pte := Function.update s.pte (s.space t p) (Function.update zeroed p true) }

/-- The address that `palloc` returns for bit `i`. -/
def frameAddr (s : AllocSys) (pf : PoolFlags) (i : Nat) : Nat := i * PG_SIZE + (s.pool pf).phyAddrStart

end AllocSys

/-- The range of pages a call returns. -/
def kernelRange (vaddr pgCnt : Nat) : Range :=
  { space := none, start := vaddr / PG_SIZE * PG_SIZE, pages := pgCnt }

/-- The pages of a range. -/
def Range.pageSet (r : Range) : Set Nat := {p | r.start / PG_SIZE ≤ p ∧ p < r.start / PG_SIZE + r.pages}

/-- `while(cnt-- > 0)`. -/
def loopPc (c : AllocCall) (l : FrameLoop) : AllocPc :=
  if l.cnt = 0 then .leave c l.vaddrStart else .pallocScan c l

/-- The page is mapped, on to the next one. -/
def FrameLoop.advance (l : FrameLoop) : FrameLoop :=
  { l with vaddr := l.vaddr + PG_SIZE, cnt := l.cnt - 1 }

/-! ## Algorithm -/

namespace AllocSys

def stepEntry (b : Build) (s : AllocSys) (t : Tid) (c : AllocCall) : Except Halt AllocSys := do
  match c with
  | .getKernelPages pgCnt =>
    assert b "malloc_page" "pg_cnt>0 && pg_cnt<3840" (pgCnt > 0 && pgCnt < 3840)
    pure (s.goto t (.vaddrScan c))
  | .getUserPages pgCnt =>
    let lock ← lockAcquire b t (s.pool .PF_USER).lock
    assert b "malloc_page" "pg_cnt>0 && pg_cnt<3840" (pgCnt > 0 && pgCnt < 3840)
    pure ((s.setLock .PF_USER lock).goto t (.vaddrScan c))
  | .getAPage pf _ =>
    let lock ← lockAcquire b t (s.pool pf).lock
    pure ((s.setLock pf lock).goto t (.mark c))

def stepVaddrScan (b : Build) (s : AllocSys) (t : Tid) (c : AllocCall) : Except Halt AllocSys := do
  match ← bitmapScan b (s.addrPool t c.pf).vaddrBitmap c.pgCnt with
  | none => pure (s.goto t (.leave c NULL))
  | some bitIdxStart => pure (s.goto t (.vaddrSet c bitIdxStart 0))

/-- The end of `vaddr_get` and the test of its result in `malloc_page`. -/
def stepVaddrDone (b : Build) (s : AllocSys) (t : Tid) (c : AllocCall) (bitIdxStart : Nat) :
    Except Halt AllocSys := do
  let vaddrStart := ((s.addrPool t c.pf).vaddrStart + bitIdxStart * PG_SIZE) % 2 ^ 32
  match c.pf with
  | .PF_KERNEL =>
    let s := { s with vaddrs := kernelRange vaddrStart c.pgCnt :: s.vaddrs }
    if vaddrStart = NULL then pure (s.goto t (.leave c NULL))
    else pure (s.goto t (loopPc c ⟨vaddrStart, vaddrStart, c.pgCnt⟩))
  | .PF_USER =>
    assert b "vaddr_get" "(uint32_t)vaddr_start < (0xc0000000 - PG_SIZE)" (vaddrStart < 0xc0000000 - PG_SIZE)
    if vaddrStart = NULL then pure (s.goto t (.leave c NULL))
    else pure (s.goto t (loopPc c ⟨vaddrStart, vaddrStart, c.pgCnt⟩))

def stepVaddrSet (b : Build) (s : AllocSys) (t : Tid) (c : AllocCall) (bitIdxStart cnt : Nat) :
    Except Halt AllocSys := do
  if cnt < c.pgCnt then
    let btmp ← bitmapSet b (s.addrPool t c.pf).vaddrBitmap (bitIdxStart + cnt) 1
    pure ((s.setAddrBitmap t c.pf btmp).goto t (.vaddrSet c bitIdxStart (cnt + 1)))
  else s.stepVaddrDone b t c bitIdxStart

/-- The middle of `get_a_page`: mark the page in the address pool of the caller. -/
def stepMark (b : Build) (s : AllocSys) (t : Tid) (c : AllocCall) : Except Halt AllocSys := do
  match c with
  | .getAPage pf vaddr =>
    if (s.task t).pgdir ≠ NULL ∧ pf = .PF_USER ∨ (s.task t).pgdir = NULL ∧ pf = .PF_KERNEL then
      let bitIdx := pageIdx vaddr (s.addrPool t pf).vaddrStart
      assert b "get_a_page" "bit_idx > 0" (bitIdx > 0)
      let btmp ← bitmapSet b (s.addrPool t pf).vaddrBitmap bitIdx 1
      pure ((s.setAddrBitmap t pf btmp).goto t (.pallocScan c ⟨vaddr, vaddr, 1⟩))
    else
      panic "get_a_page" "get_a_page: not allow kernel alloc userspace or             user alloc kernelspace by get_a_page"
  | _ => .error .disabled

def stepPallocScan (b : Build) (s : AllocSys) (t : Tid) (c : AllocCall) (l : FrameLoop) :
    Except Halt AllocSys := do
  match ← bitmapScan b (s.pool c.pf).poolBitmap 1 with
  | none => pure (s.goto t (.leave c NULL))
  | some bitIdx => pure (s.goto t (.pallocSet c l bitIdx))

/-- The `bitmap_set` of `palloc` on the pool `pf`, and its return. -/
def takeFrame (b : Build) (s : AllocSys) (pf : PoolFlags) (bitIdx : Nat) : Except Halt AllocSys := do
  let btmp ← bitmapSet b (s.pool pf).poolBitmap bitIdx 1
  pure { s.setPoolBitmap pf btmp with frames := s.frameAddr pf bitIdx :: s.frames }

def stepPallocSet (b : Build) (s : AllocSys) (t : Tid) (c : AllocCall) (l : FrameLoop) (bitIdx : Nat) :
    Except Halt AllocSys := do
  let s' ← s.takeFrame b c.pf bitIdx
  if s.frameAddr c.pf bitIdx = NULL then pure (s'.goto t (.leave c NULL))
  else pure (s'.goto t (.tableTest c l))

/-- The test of `*pde` and the branch where the table is there. -/
def stepTableTest (b : Build) (s : AllocSys) (t : Tid) (c : AllocCall) (l : FrameLoop) :
    Except Halt AllocSys := do
  let p := l.vaddr / PG_SIZE
  if s.pdePresent t p then
    assert b "page_table_add" "!(*pte & 0x00000001)" (!s.pte (s.space t p) p)
    if !s.pte (s.space t p) p then pure ((s.mapPage t p).goto t (loopPc c l.advance))
    else panic "page_table_add" "pte repeat"
  else pure (s.goto t (.tableScan c l))

/-- The other branch; that `palloc` may have returned `NULL` is not tested. -/
def stepTableScan (b : Build) (s : AllocSys) (t : Tid) (c : AllocCall) (l : FrameLoop) :
    Except Halt AllocSys := do
  match ← bitmapScan b (s.pool .PF_KERNEL).poolBitmap 1 with
  | none => pure ((s.newTable t (l.vaddr / PG_SIZE)).goto t (loopPc c l.advance))
  | some bitIdx => pure (s.goto t (.tableSet c l bitIdx))

def stepTableSet (b : Build) (s : AllocSys) (t : Tid) (c : AllocCall) (l : FrameLoop) (bitIdx : Nat) :
    Except Halt AllocSys := do
  let s ← s.takeFrame b .PF_KERNEL bitIdx
  pure ((s.newTable t (l.vaddr / PG_SIZE)).goto t (loopPc c l.advance))

/-- A call returns. -/
def finish (s : AllocSys) (t : Tid) (c : AllocCall) (ret : Nat) : AllocSys :=
  let s := s.goto t .idle
  if c.pf = .PF_KERNEL ∧ ret ≠ NULL then { s with ranges := kernelRange ret c.pgCnt :: s.ranges } else s

def stepLeave (b : Build) (s : AllocSys) (t : Tid) (c : AllocCall) (ret : Nat) : Except Halt AllocSys := do
  match c with
  | .getKernelPages _ => pure (s.finish t c ret)
  | .getUserPages _ =>
    let lock ← lockRelease b t (s.pool .PF_USER).lock
    pure ((s.setLock .PF_USER lock).finish t c ret)
  | .getAPage pf _ =>
    -- the return of NULL leaves the lock taken
    if ret = NULL then pure (s.finish t c ret)
    else
      let lock ← lockRelease b t (s.pool pf).lock
      pure ((s.setLock pf lock).finish t c ret)

end AllocSys

inductive AllocEvent where
  | call (t : Tid) (c : AllocCall)
  | step (t : Tid)
  deriving DecidableEq, Repr

def AllocSys.stepThread (b : Build) (s : AllocSys) (t : Tid) : Except Halt AllocSys :=
  match s.pc t with
  | .idle => .error .disabled
  | .entry c => s.stepEntry b t c
  | .vaddrScan c => s.stepVaddrScan b t c
  | .vaddrSet c bitIdxStart cnt => s.stepVaddrSet b t c bitIdxStart cnt
  | .mark c => s.stepMark b t c
  | .pallocScan c l => s.stepPallocScan b t c l
  | .pallocSet c l bitIdx => s.stepPallocSet b t c l bitIdx
  | .tableTest c l => s.stepTableTest b t c l
  | .tableScan c l => s.stepTableScan b t c l
  | .tableSet c l bitIdx => s.stepTableSet b t c l bitIdx
  | .leave c ret => s.stepLeave b t c ret

def AllocSys.step (b : Build) (s : AllocSys) : AllocEvent → Except Halt AllocSys
  | .call t c => if t ∈ s.threads ∧ s.pc t = .idle then pure (s.goto t (.entry c)) else .error .disabled
  | .step t => s.stepThread b t

/-! ## Transitions -/

/-- After the `bitmap_set` of `palloc`. -/
def AllocSys.withFrame (s : AllocSys) (pf : PoolFlags) (bitIdx : Nat) : AllocSys :=
  { s.setPoolBitmap pf ((s.pool pf).poolBitmap.write bitIdx 1) with
    frames := s.frameAddr pf bitIdx :: s.frames }

/-- After the `bitmap_set` of an address pool. -/
def AllocSys.withPage (s : AllocSys) (t : Tid) (pf : PoolFlags) (bitIdx : Nat) : AllocSys :=
  s.setAddrBitmap t pf ((s.addrPool t pf).vaddrBitmap.write bitIdx 1)

/-- The result of `vaddr_get`. -/
def AllocSys.vaddrOf (s : AllocSys) (t : Tid) (pf : PoolFlags) (bitIdxStart : Nat) : Nat :=
  ((s.addrPool t pf).vaddrStart + bitIdxStart * PG_SIZE) % 2 ^ 32

def AllocSys.withVaddr (s : AllocSys) (pf : PoolFlags) (vaddr pgCnt : Nat) : AllocSys :=
  match pf with
  | .PF_KERNEL => { s with vaddrs := kernelRange vaddr pgCnt :: s.vaddrs }
  | .PF_USER => s

/-- The steps of thread `t`. -/
inductive AllocTrans (b : Build) (s : AllocSys) (t : Tid) : AllocSys → Prop where
  | enter {n : Nat} (hpc : s.pc t = .entry (.getKernelPages n)) :
    AllocTrans b s t (s.goto t (.vaddrScan (.getKernelPages n)))
  | acquire {c : AllocCall} {lock : Lock} {pc : AllocPc} (hpc : s.pc t = .entry c)
    (hlock : lockAcquire b t (s.pool c.pf).lock = .ok lock)
    (hto : (∃ n, c = .getUserPages n ∧ pc = .vaddrScan c) ∨ pc = .mark c) :
    AllocTrans b s t ((s.setLock c.pf lock).goto t pc)
  | vaddrNone {c : AllocCall} (hpc : s.pc t = .vaddrScan c) : AllocTrans b s t (s.goto t (.leave c NULL))
  | vaddrFound {c : AllocCall} {i : Nat} (hpc : s.pc t = .vaddrScan c)
    (hscan : bitmapScan b (s.addrPool t c.pf).vaddrBitmap c.pgCnt = .ok (some i)) :
    AllocTrans b s t (s.goto t (.vaddrSet c i 0))
  | vaddrBit {c : AllocCall} {i cnt : Nat} (hpc : s.pc t = .vaddrSet c i cnt) (hlt : cnt < c.pgCnt) :
    AllocTrans b s t ((s.withPage t c.pf (i + cnt)).goto t (.vaddrSet c i (cnt + 1)))
  | vaddrDone {c : AllocCall} {i cnt : Nat} {pc : AllocPc} (hpc : s.pc t = .vaddrSet c i cnt)
    (hge : ¬ cnt < c.pgCnt)
    (hto : pc = .leave c NULL ∨ pc = loopPc c ⟨s.vaddrOf t c.pf i, s.vaddrOf t c.pf i, c.pgCnt⟩) :
    AllocTrans b s t ((s.withVaddr c.pf (s.vaddrOf t c.pf i) c.pgCnt).goto t pc)
  | marked {pf : PoolFlags} {v i : Nat} (hpc : s.pc t = .mark (.getAPage pf v))
    (hcaller : (s.task t).pgdir ≠ NULL ∧ pf = .PF_USER ∨ (s.task t).pgdir = NULL ∧ pf = .PF_KERNEL) :
    AllocTrans b s t ((s.withPage t pf i).goto t (.pallocScan (.getAPage pf v) ⟨v, v, 1⟩))
  | pallocNone {c : AllocCall} {l : FrameLoop} (hpc : s.pc t = .pallocScan c l) :
    AllocTrans b s t (s.goto t (.leave c NULL))
  | pallocFound {c : AllocCall} {l : FrameLoop} {i : Nat} (hpc : s.pc t = .pallocScan c l)
    (hscan : bitmapScan b (s.pool c.pf).poolBitmap 1 = .ok (some i)) :
    AllocTrans b s t (s.goto t (.pallocSet c l i))
  | pallocDone {c : AllocCall} {l : FrameLoop} {i : Nat} {pc : AllocPc} (hpc : s.pc t = .pallocSet c l i)
    (hto : pc = .leave c NULL ∨ pc = .tableTest c l) :
    AllocTrans b s t ((s.withFrame c.pf i).goto t pc)
  | mapped {c : AllocCall} {l : FrameLoop} (hpc : s.pc t = .tableTest c l)
    (hpte : s.pte (s.space t (l.vaddr / PG_SIZE)) (l.vaddr / PG_SIZE) = false) :
    AllocTrans b s t ((s.mapPage t (l.vaddr / PG_SIZE)).goto t (loopPc c l.advance))
  | tableAbsent {c : AllocCall} {l : FrameLoop} (hpc : s.pc t = .tableTest c l)
    (hpde : s.pdePresent t (l.vaddr / PG_SIZE) = false) :
    AllocTrans b s t (s.goto t (.tableScan c l))
  | tableNone {c : AllocCall} {l : FrameLoop} (hpc : s.pc t = .tableScan c l) :
    AllocTrans b s t ((s.newTable t (l.vaddr / PG_SIZE)).goto t (loopPc c l.advance))
  | tableFound {c : AllocCall} {l : FrameLoop} {i : Nat} (hpc : s.pc t = .tableScan c l)
    (hscan : bitmapScan b (s.pool .PF_KERNEL).poolBitmap 1 = .ok (some i)) :
    AllocTrans b s t (s.goto t (.tableSet c l i))
  | tableDone {c : AllocCall} {l : FrameLoop} {i : Nat} (hpc : s.pc t = .tableSet c l i) :
    AllocTrans b s t (((s.withFrame .PF_KERNEL i).newTable t (l.vaddr / PG_SIZE)).goto t (loopPc c l.advance))
  | left {c : AllocCall} {ret : Nat} (hpc : s.pc t = .leave c ret) : AllocTrans b s t (s.finish t c ret)
  | released {c : AllocCall} {ret : Nat} {lock : Lock} (hpc : s.pc t = .leave c ret)
    (hlock : lockRelease b t (s.pool c.pf).lock = .ok lock) :
    AllocTrans b s t ((s.setLock c.pf lock).finish t c ret)

section
variable {b : Build} {s s' : AllocSys} {t : Tid}

theorem stepVaddrSet_trans {c : AllocCall} {i cnt : Nat} (hpc : s.pc t = .vaddrSet c i cnt)
    (h : s.stepVaddrSet b t c i cnt = .ok s') : AllocTrans b s t s' := by
  unfold AllocSys.stepVaddrSet at h
  split at h
  · next hlt =>
    rw [bitmapSet_one] at h
    cases h
    exact .vaddrBit hpc hlt
  · next hge =>
    unfold AllocSys.stepVaddrDone at h
    have done : ∀ pc, (pc = .leave c NULL ∨
        pc = loopPc c ⟨s.vaddrOf t c.pf i, s.vaddrOf t c.pf i, c.pgCnt⟩) →
        AllocTrans b s t ((s.withVaddr c.pf (s.vaddrOf t c.pf i) c.pgCnt).goto t pc) :=
      fun pc hto => .vaddrDone hpc hge hto
    unfold AllocSys.vaddrOf AllocSys.withVaddr at done
    cases hpf : c.pf with
    | PF_KERNEL =>
      simp only [hpf] at h done
      split at h
      · cases h
        exact done _ (.inl rfl)
      · cases h
        exact done _ (.inr rfl)
    | PF_USER =>
      simp only [hpf] at h done
      obtain ⟨-, -, h⟩ := (bind_eq_ok _ _ _).mp h
      split at h
      · cases h
        exact done _ (.inl rfl)
      · cases h
        exact done _ (.inr rfl)

theorem takeFrame_ok {pf : PoolFlags} {i : Nat} : s.takeFrame b pf i = .ok (s.withFrame pf i) := by
  unfold AllocSys.takeFrame AllocSys.withFrame
  rw [bitmapSet_one]
  rfl

theorem stepEntry_trans {c : AllocCall} (hpc : s.pc t = .entry c) (h : s.stepEntry b t c = .ok s') :
    AllocTrans b s t s' := by
  unfold AllocSys.stepEntry at h
  cases c with
  | getKernelPages n =>
    obtain ⟨-, -, h⟩ := (bind_eq_ok _ _ _).mp h
    cases h
    exact .enter hpc
  | getUserPages n =>
    obtain ⟨lock, hlock, h⟩ := (bind_eq_ok _ _ _).mp h
    obtain ⟨-, -, h⟩ := (bind_eq_ok _ _ _).mp h
    cases h
    exact .acquire hpc hlock (.inl ⟨n, rfl, rfl⟩)
  | getAPage pf v =>
    obtain ⟨lock, hlock, h⟩ := (bind_eq_ok _ _ _).mp h
    cases h
    exact .acquire hpc hlock (.inr rfl)

theorem stepMark_trans {c : AllocCall} (hpc : s.pc t = .mark c) (h : s.stepMark b t c = .ok s') :
    AllocTrans b s t s' := by
  unfold AllocSys.stepMark at h
  cases c with
  | getKernelPages n => cases h
  | getUserPages n => cases h
  | getAPage pf v =>
    simp only at h
    split at h
    · next hcaller =>
      obtain ⟨-, -, h⟩ := (bind_eq_ok _ _ _).mp h
      rw [bitmapSet_one] at h
      cases h
      exact .marked hpc hcaller
    · cases h

theorem stepTableTest_trans {c : AllocCall} {l : FrameLoop} (hpc : s.pc t = .tableTest c l)
    (h : s.stepTableTest b t c l = .ok s') : AllocTrans b s t s' := by
  unfold AllocSys.stepTableTest at h
  simp only at h
  split at h
  · obtain ⟨-, -, h⟩ := (bind_eq_ok _ _ _).mp h
    split at h
    · next hpte =>
      cases h
      exact .mapped hpc (by simpa using hpte)
    · cases h
  · next hpde =>
    cases h
    exact .tableAbsent hpc (by simpa using hpde)

theorem stepLeave_trans {c : AllocCall} {ret : Nat} (hpc : s.pc t = .leave c ret)
    (h : s.stepLeave b t c ret = .ok s') : AllocTrans b s t s' := by
  unfold AllocSys.stepLeave at h
  cases c with
  | getKernelPages n =>
    cases h
    exact .left hpc
  | getUserPages n =>
    obtain ⟨lock, hlock, h⟩ := (bind_eq_ok _ _ _).mp h
    cases h
    exact .released hpc hlock
  | getAPage pf v =>
    simp only at h
    split at h
    · cases h
      exact .left hpc
    · obtain ⟨lock, hlock, h⟩ := (bind_eq_ok _ _ _).mp h
      cases h
      exact .released hpc hlock

/-- Every step of a thread is one of the transitions. -/
theorem allocTrans_of_step (h : s.stepThread b t = .ok s') : AllocTrans b s t s' := by
  unfold AllocSys.stepThread at h
  cases hpc : s.pc t with
  | idle => simp only [hpc, reduceCtorEq] at h
  | entry c =>
    simp only [hpc] at h
    exact stepEntry_trans hpc h
  | vaddrScan c =>
    simp only [hpc, AllocSys.stepVaddrScan] at h
    obtain ⟨r, hr, h⟩ := (bind_eq_ok _ _ _).mp h
    cases r with
    | none =>
      cases h
      exact .vaddrNone hpc
    | some i =>
      cases h
      exact .vaddrFound hpc hr
  | vaddrSet c i cnt =>
    simp only [hpc] at h
    exact stepVaddrSet_trans hpc h
  | mark c =>
    simp only [hpc] at h
    exact stepMark_trans hpc h
  | pallocScan c l =>
    simp only [hpc, AllocSys.stepPallocScan] at h
    obtain ⟨r, hr, h⟩ := (bind_eq_ok _ _ _).mp h
    cases r with
    | none =>
      cases h
      exact .pallocNone hpc
    | some i =>
      cases h
      exact .pallocFound hpc hr
  | pallocSet c l i =>
    simp only [hpc, AllocSys.stepPallocSet] at h
    obtain ⟨s1, h1, h⟩ := (bind_eq_ok _ _ _).mp h
    rw [takeFrame_ok] at h1
    cases h1
    split at h
    · cases h
      exact .pallocDone hpc (.inl rfl)
    · cases h
      exact .pallocDone hpc (.inr rfl)
  | tableTest c l =>
    simp only [hpc] at h
    exact stepTableTest_trans hpc h
  | tableScan c l =>
    simp only [hpc, AllocSys.stepTableScan] at h
    obtain ⟨r, hr, h⟩ := (bind_eq_ok _ _ _).mp h
    cases r with
    | none =>
      cases h
      exact .tableNone hpc
    | some i =>
      cases h
      exact .tableFound hpc hr
  | tableSet c l i =>
    simp only [hpc, AllocSys.stepTableSet] at h
    obtain ⟨s1, h1, h⟩ := (bind_eq_ok _ _ _).mp h
    rw [takeFrame_ok] at h1
    cases h1
    cases h
    exact .tableDone hpc
  | leave c ret =>
    simp only [hpc] at h
    exact stepLeave_trans hpc h

end

/-! ## One thread alone -/

section
variable {b : Build} {s : AllocSys} {t : Tid} {c : AllocCall}

@[simp] theorem goto_pc (s : AllocSys) (t : Tid) (pc : AllocPc) : (s.goto t pc).pc t = pc :=
  Function.update_self ..

theorem goto_pc_ne (s : AllocSys) {t t' : Tid} (pc : AllocPc) (h : t' ≠ t) : (s.goto t pc).pc t' = s.pc t' :=
  Function.update_of_ne h _ _

/-- The run belongs to thread `t`. -/
def AllocEvent.Of (t : Tid) (_ : AllocSys) (e : AllocEvent) : Prop := e = .step t

/-- Undisturbed, the two steps of `palloc` are `palloc`. -/
theorem palloc_alone {l : FrameLoop} {a : Nat} {pool : Pool} (hpc : s.pc t = .pallocScan c l)
    (hstart : 0 < (s.pool c.pf).phyAddrStart) (h : palloc b (s.pool c.pf) = .ok (a, pool)) :
    ∃ es s', Runs (AllocSys.step b) (AllocEvent.Of t) s es s' ∧ s'.pool = Function.update s.pool c.pf pool ∧
      s'.frames = (if a = NULL then s.frames else a :: s.frames) ∧
      s'.pc t = if a = NULL then .leave c NULL else .tableTest c l := by
  unfold palloc at h
  obtain ⟨r, hscan, h⟩ := (bind_eq_ok _ _ _).mp h
  have hstep : s.step b (.step t) = s.stepPallocScan b t c l := by
    simp only [AllocSys.step, AllocSys.stepThread, hpc]
  unfold AllocSys.stepPallocScan at hstep
  rw [hscan] at hstep
  cases r with
  | none =>
    cases h
    refine ⟨[.step t], s.goto t (.leave c NULL), .cons rfl hstep rfl, ?_, rfl, goto_pc _ _ _⟩
    exact (Function.update_eq_self _ _).symm
  | some i =>
    simp only [bitmapSet_one] at h
    cases h
    have hne : i * PG_SIZE + (s.pool c.pf).phyAddrStart ≠ NULL := by
      simp only [NULL]
      omega
    have hset : (s.goto t (.pallocSet c l i)).step b (.step t) =
        .ok (((s.goto t (.pallocSet c l i)).withFrame c.pf i).goto t (.tableTest c l)) := by
      simp only [AllocSys.step, AllocSys.stepThread, goto_pc, AllocSys.stepPallocSet, takeFrame_ok]
      exact if_neg hne
    refine ⟨[.step t, .step t], _, .cons rfl hstep (.cons rfl hset rfl), rfl, ?_, ?_⟩
    · rw [if_neg hne]
      rfl
    · rw [if_neg hne, goto_pc]

/-- Undisturbed, the loop of `vaddr_get` is `setRun`. -/
theorem setRun_alone (hpf : c.pf = .PF_KERNEL) {i : Nat} {btmp : Bitmap} : ∀ m cnt (s : AllocSys),
    s.pc t = .vaddrSet c i cnt → cnt + m = c.pgCnt →
    setRun b i m cnt s.kernelVaddr.vaddrBitmap = .ok btmp →
    ∃ es s', Runs (AllocSys.step b) (AllocEvent.Of t) s es s' ∧ s'.pc t = .vaddrSet c i c.pgCnt ∧
      s'.kernelVaddr = { s.kernelVaddr with vaddrBitmap := btmp } := by
  intro m
  induction m with
  | zero =>
    intro cnt s hpc hm h
    cases h
    refine ⟨[], s, rfl, ?_, rfl⟩
    rw [hpc, ← hm, Nat.add_zero]
  | succ m ih =>
    intro cnt s hpc hm h
    simp only [setRun, bitmapSet_one] at h
    have hstep : s.step b (.step t) =
        .ok ((s.withPage t .PF_KERNEL (i + cnt)).goto t (.vaddrSet c i (cnt + 1))) := by
      simp only [AllocSys.step, AllocSys.stepThread, hpc, AllocSys.stepVaddrSet, bitmapSet_one, hpf]
      exact if_pos (by omega)
    obtain ⟨es, s', hr, hpc', hva⟩ := ih (cnt + 1)
      ((s.withPage t .PF_KERNEL (i + cnt)).goto t (.vaddrSet c i (cnt + 1))) (goto_pc _ _ _) (by omega) h
    exact ⟨.step t :: es, s', .cons rfl hstep hr, hpc', hva⟩

/-- Undisturbed, the steps of `vaddr_get` are `vaddrTake`. -/
theorem vaddrGet_alone (hpf : c.pf = .PF_KERNEL) (hpc : s.pc t = .vaddrScan c) {v : Nat} {va : VirtualAddr}
    (hv : v ≠ NULL) (h : vaddrTake b s.kernelVaddr c.pgCnt = .ok (v, va)) :
    ∃ es s', Runs (AllocSys.step b) (AllocEvent.Of t) s es s' ∧ s'.kernelVaddr = va ∧
      s'.pc t = loopPc c ⟨v, v, c.pgCnt⟩ := by
  unfold vaddrTake at h
  obtain ⟨r, hscan, h⟩ := (bind_eq_ok _ _ _).mp h
  cases r with
  | none =>
    cases h
    exact absurd rfl hv
  | some i =>
    obtain ⟨btmp, hset, h⟩ := (bind_eq_ok _ _ _).mp h
    cases h
    have hstep : s.step b (.step t) = .ok (s.goto t (.vaddrSet c i 0)) := by
      simp only [AllocSys.step, AllocSys.stepThread, hpc, AllocSys.stepVaddrScan, hpf, AllocSys.addrPool, hscan]
      rfl
    obtain ⟨es, s', hr, hpc', hva⟩ := setRun_alone hpf c.pgCnt 0 _ (goto_pc s t _) (by omega) hset
    generalize hw : (s.kernelVaddr.vaddrStart + i * PG_SIZE) % 2 ^ 32 = w at hv
    have hdone : s'.step b (.step t) =
        .ok ((s'.withVaddr .PF_KERNEL w c.pgCnt).goto t (loopPc c ⟨w, w, c.pgCnt⟩)) := by
      have hva' : (s'.kernelVaddr.vaddrStart + i * PG_SIZE) % 2 ^ 32 = w := by
        rw [hva]
        exact hw
      simp only [AllocSys.step, AllocSys.stepThread, hpc', AllocSys.stepVaddrSet, AllocSys.stepVaddrDone, hpf,
        AllocSys.addrPool, hva', Nat.lt_irrefl, if_false, if_neg hv]
      rfl
    have hlast : Runs (AllocSys.step b) (AllocEvent.Of t) s' [.step t]
        ((s'.withVaddr .PF_KERNEL w c.pgCnt).goto t (loopPc c ⟨w, w, c.pgCnt⟩)) := .cons rfl hdone rfl
    generalize hs : (s'.withVaddr .PF_KERNEL w c.pgCnt).goto t (loopPc c ⟨w, w, c.pgCnt⟩) = s'' at hlast
    refine ⟨.step t :: (es ++ [.step t]), s'',
      .cons rfl hstep ((Runs.append _ _ _ _).mpr ⟨s', hr, hlast⟩), ?_, ?_⟩
    · rw [← hs]
      exact hva
    · rw [← hs, goto_pc]

end

end MyOs
