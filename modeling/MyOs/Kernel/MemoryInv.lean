import MyOs.Userprog.Process

/-!
# The invariant of the allocator's state

`VmInv Z U kfree s` carries the invariant `Spaces` of `MyOs.Kernel.AddressSpace` to the state of the
allocator: the frames a pool has handed out are those whose bit is set, the directory pages are the
`pgdir`s of the tasks, and the active directory is that of the running task.  What the functions of
`memory.c` do to it is in `MyOs.Kernel.MemoryCalls`.

    VmInv.walkPage_kernel    every directory translates a kernel page through the shared tables
    VmInv.takeKernel         a frame of the kernel pool is handed out
    VmInv.takeUser           a frame of the user pool is handed out
-/

namespace MyOs

open Paging

/-- The pool has handed out frame `f`. -/
def Pool.Taken (p : Pool) (f : Nat) : Prop :=
  p.phyAddrStart / 4096 ≤ f ∧ f - p.phyAddrStart / 4096 < 8 * p.poolBitmap.btmpBytesLen ∧
    p.poolBitmap.bit (f - p.phyAddrStart / 4096) = true

/-- The number of frames the pool has handed out. -/
def Pool.taken (p : Pool) : Nat := p.poolBitmap.count (8 * p.poolBitmap.btmpBytesLen)

/-- Virtual page `p` holds the page directory of a task. -/
def Vm.DirPage (s : Vm) (p : Nat) : Prop := ∃ t, (s.task t).pgdir ≠ NULL ∧ (s.task t).pgdir = p * 4096

structure VmInv (Z : Prop) (U kfree : Nat) (s : Vm) : Prop where
  kStart : s.kernelPool.phyAddrStart = 512 * 4096
  uStart : s.userPool.phyAddrStart = (512 + kfree) * 4096
  kLen : 8 * s.kernelPool.poolBitmap.btmpBytesLen ≤ kfree
  kfreeLt : kfree < 2 ^ 15
  uLen : 8 * s.userPool.poolBitmap.btmpBytesLen ≤ 2 ^ 15
  spaces : Spaces Z s.mem s.DirPage U s.kernelPool.Taken s.userPool.Taken
  pgdirPage : ∀ t, ∃ p, (s.task t).pgdir = p * 4096
  kernelActive : (s.task s.cur).pgdir = NULL → s.cr3 = bootDir * 4096
  userActive : ∀ p, (s.task s.cur).pgdir = p * 4096 → p ≠ 0 →
    ∃ d, walkPage s.mem bootDir p = some d ∧ s.cr3 = d * 4096

/-- What every call of the allocator leaves as it is, apart from `mem`, the bits of the pools and the
address pools. -/
structure Frozen (s s' : Vm) : Prop where
  cur : s'.cur = s.cur
  cr3 : s'.cr3 = s.cr3
  kLock : s'.kernelPool.lock = s.kernelPool.lock
  uLock : s'.userPool.lock = s.userPool.lock
  kLen : s'.kernelPool.poolBitmap.btmpBytesLen = s.kernelPool.poolBitmap.btmpBytesLen
  taken : s.kernelPool.taken ≤ s'.kernelPool.taken
  kernelVaddr : s'.kernelVaddr = s.kernelVaddr
  task : s'.task = s.task

theorem Frozen.refl (s : Vm) : Frozen s s := ⟨rfl, rfl, rfl, rfl, rfl, Nat.le_refl _, rfl, rfl⟩

theorem Frozen.trans {s1 s2 s3 : Vm} (h : Frozen s1 s2) (h' : Frozen s2 s3) : Frozen s1 s3 :=
  ⟨h'.cur.trans h.cur, h'.cr3.trans h.cr3, h'.kLock.trans h.kLock, h'.uLock.trans h.uLock,
    h'.kLen.trans h.kLen, Nat.le_trans h.taken h'.taken, h'.kernelVaddr.trans h.kernelVaddr,
    h'.task.trans h.task⟩

theorem Frozen.ofMem (s : Vm) (mem : Mem) : Frozen s { s with mem := mem } :=
  ⟨rfl, rfl, rfl, rfl, rfl, Nat.le_refl _, rfl, rfl⟩

/-- The uses of frames in state `s`, counting the first `U` heap pages. -/
def Vm.Uses (s : Vm) (U : Nat) : Use → Nat → Prop := MyOs.Uses s.mem s.DirPage U

/-- Everything in use in `s` is in use in `s'`. -/
def Vm.Grows (s : Vm) (U : Nat) (s' : Vm) (U' : Nat) : Prop :=
  MyOs.Grows s.mem s.DirPage U s'.mem s'.DirPage U'

theorem Vm.Grows.trans {s1 s2 s3 : Vm} {U1 U2 U3 : Nat} (h : s1.Grows U1 s2 U2)
    (h' : s2.Grows U2 s3 U3) : s1.Grows U1 s3 U3 := fun u f hu => h' u f (h u f hu)

namespace VmInv

variable {Z : Prop} {U kfree : Nat} {s : Vm}

/-- The active directory is the boot directory or that of a process. -/
theorem dir_cases (h : VmInv Z U kfree s) :
    s.dir = bootDir ∧ (s.task s.cur).pgdir = NULL ∨
    IsDir s.mem s.DirPage s.dir ∧ (s.task s.cur).pgdir ≠ NULL := by
  by_cases hn : (s.task s.cur).pgdir = NULL
  · left
    unfold Vm.dir
    rw [h.kernelActive hn]
    exact ⟨by omega, hn⟩
  · right
    obtain ⟨p, hp⟩ := h.pgdirPage s.cur
    obtain ⟨d, hw, hc⟩ := h.userActive p hp (fun e => hn (by rw [hp, e]; rfl))
    unfold Vm.dir
    rw [hc, Nat.mul_div_cancel _ (by decide)]
    exact ⟨⟨p, ⟨s.cur, hn, hp⟩, hw⟩, hn⟩

theorem selfMapped (h : VmInv Z U kfree s) : SelfMapped s.mem s.dir := by
  rcases h.dir_cases with ⟨hd, -⟩ | ⟨hd, -⟩
  · rw [hd]
    exact h.spaces.selfMapped_boot
  · exact h.spaces.selfMapped_dir _ hd

/-- The active directory's entries of the kernel half are those of the boot directory. -/
theorem dir_kernel (h : VmInv Z U kfree s) (i : Nat) (h1 : 768 ≤ i) (h2 : i < 1023) :
    s.mem s.dir i = (i - 511) * 4096 + 7 := by
  rw [← h.spaces.bootKernel i h1 h2]
  rcases h.dir_cases with ⟨hd, -⟩ | ⟨hd, -⟩
  · rw [hd]
  · exact h.spaces.dirKernel _ hd i h1 h2

/-- Kernel addresses translate alike under the active directory and under the boot directory. -/
theorem walkPage_kernel (h : VmInv Z U kfree s) (p : Nat) (h1 : 0xc0000 ≤ p) (h2 : p < 0xffc00) :
    walkPage s.mem s.dir p = walkPage s.mem bootDir p := by
  rcases h.dir_cases with ⟨hd, -⟩ | ⟨hd, -⟩
  · rw [hd]
  · exact h.spaces.walkPage_dir _ p hd h1 h2

theorem table_kernel (h : VmInv Z U kfree s) (p : Nat) (h1 : 0xc0000 ≤ p) (h2 : p < 0xffc00) :
    table s.mem s.dir p = p / 1024 - 511 := by
  unfold table
  rw [h.dir_kernel (p / 1024) (by omega) (by omega)]
  omega

/-! ## State changes the invariant does not see -/

/-- The invariant only depends on memory, `cr3`, the running task, the directories and the pools. -/
theorem congr {s' : Vm} (h : VmInv Z U kfree s) (hmem : s'.mem = s.mem) (hcr3 : s'.cr3 = s.cr3)
    (hcur : s'.cur = s.cur) (hpg : ∀ t, (s'.task t).pgdir = (s.task t).pgdir)
    (hks : s'.kernelPool.phyAddrStart = s.kernelPool.phyAddrStart)
    (hus : s'.userPool.phyAddrStart = s.userPool.phyAddrStart)
    (hkb : s'.kernelPool.poolBitmap = s.kernelPool.poolBitmap)
    (hub : s'.userPool.poolBitmap = s.userPool.poolBitmap) : VmInv Z U kfree s' := by
  have hdp : s'.DirPage = s.DirPage := by
    funext p
    simp only [Vm.DirPage, hpg]
  have hK : s'.kernelPool.Taken = s.kernelPool.Taken := by
    funext f
    simp only [Pool.Taken, hks, hkb]
  have hW : s'.userPool.Taken = s.userPool.Taken := by
    funext f
    simp only [Pool.Taken, hus, hub]
  exact
    { kStart := by rw [hks]; exact h.kStart
      uStart := by rw [hus]; exact h.uStart
      kLen := by rw [hkb]; exact h.kLen
      kfreeLt := h.kfreeLt
      uLen := by rw [hub]; exact h.uLen
      spaces := by rw [hmem, hdp, hK, hW]; exact h.spaces
      pgdirPage := fun t => by rw [hpg]; exact h.pgdirPage t
      kernelActive := by rw [hpg, hcur, hcr3]; exact h.kernelActive
      userActive := by rw [hpg, hcur, hcr3, hmem]; exact h.userActive }

/-- A change of memory that keeps `Spaces` and the walks of directory pages keeps the invariant. -/
theorem ofMem {mem' : Mem} {U' : Nat} (h : VmInv Z U kfree s)
    (hsp : Spaces Z mem' s.DirPage U' s.kernelPool.Taken s.userPool.Taken)
    (hg : MyOs.Grows s.mem s.DirPage U mem' s.DirPage U') : VmInv Z U' kfree { s with mem := mem' } :=
  { kStart := h.kStart
    uStart := h.uStart
    kLen := h.kLen
    kfreeLt := h.kfreeLt
    uLen := h.uLen
    spaces := hsp
    pgdirPage := h.pgdirPage
    kernelActive := h.kernelActive
    userActive := by
      intro p hp hne
      obtain ⟨d, hw, hc⟩ := h.userActive p hp hne
      refine ⟨d, ?_, hc⟩
      have hdp : s.DirPage p := ⟨s.cur, fun e => hne (by
        rw [hp] at e
        unfold NULL at e
        omega), hp⟩
      obtain ⟨h1, h2⟩ := h.spaces.pgHeap p hdp
      exact (hg (.kpage p) d ⟨h1, h2, hw⟩).2.2 }

end VmInv

/-! ## palloc -/

theorem Pool.taken_write (p : Pool) (i : Nat) (hi : i < 8 * p.poolBitmap.btmpBytesLen)
    (hc : p.poolBitmap.bit i = false) :
    ({ p with poolBitmap := p.poolBitmap.write i 1 } : Pool).taken = p.taken + 1 := by
  unfold Pool.taken
  simp only [Bitmap.write_len, Bitmap.count_write_one _ _ _ hc, if_pos hi]

theorem Pool.taken_mono_write (p : Pool) (i f : Nat) (h : p.Taken f) :
    ({ p with poolBitmap := p.poolBitmap.write i 1 } : Pool).Taken f := by
  obtain ⟨h1, h2, h3⟩ := h
  refine ⟨h1, h2, ?_⟩
  simp only [Bitmap.bit_write]
  split
  · rfl
  · exact h3

theorem Pool.taken_write_self (p : Pool) (i q : Nat) (hq : p.phyAddrStart = q * 4096)
    (hi : i < 8 * p.poolBitmap.btmpBytesLen) :
    ({ p with poolBitmap := p.poolBitmap.write i 1 } : Pool).Taken (q + i) := by
  have hb : p.phyAddrStart / 4096 = q := by omega
  refine ⟨by simp only [hb]; omega, ?_, ?_⟩
  · simp only [hb, Bitmap.write_len]
    omega
  · simp only [hb, Bitmap.bit_write, show q + i - q = i by omega]
    rfl

theorem Pool.taken_bounds (p : Pool) (f q : Nat) (hq : p.phyAddrStart = q * 4096) (h : p.Taken f) :
    q ≤ f ∧ f < q + 8 * p.poolBitmap.btmpBytesLen := by
  obtain ⟨h1, h2, -⟩ := h
  have hb : p.phyAddrStart / 4096 = q := by omega
  rw [hb] at h1 h2
  omega

theorem Pool.not_taken (p : Pool) (i q : Nat) (hq : p.phyAddrStart = q * 4096)
    (hc : p.poolBitmap.bit i = false) : ¬ p.Taken (q + i) := by
  rintro ⟨-, -, h⟩
  have hb : p.phyAddrStart / 4096 = q := by omega
  rw [hb, show q + i - q = i by omega, hc] at h
  cases h

namespace VmInv

variable {Z : Prop} {U kfree : Nat} {s : Vm}

/-- Handing out a frame of the kernel pool. -/
theorem takeKernel (h : VmInv Z U kfree s) (i : Nat)
    (hi : i < 8 * s.kernelPool.poolBitmap.btmpBytesLen) (hc : s.kernelPool.poolBitmap.bit i = false)
    (s' : Vm) (hs' : s' = { s with kernelPool :=
      { s.kernelPool with poolBitmap := s.kernelPool.poolBitmap.write i 1 } }) :
    VmInv Z U kfree s' ∧ Frozen s s' ∧ s'.kernelPool.taken = s.kernelPool.taken + 1 ∧
      s'.kernelPool.Taken (512 + i) ∧ ∀ u, ¬ s'.Uses U u (512 + i) := by
  subst hs'
  have hk := h.kStart
  have hkl := h.kLen
  have hkf := h.kfreeLt
  have hul := h.uLen
  have hfree : ∀ u, ¬ s.Uses U u (512 + i) := by
    intro u hu
    have ho := h.spaces.owned u _ hu
    cases u with
    | kpage p => exact s.kernelPool.not_taken i 512 hk hc ho
    | utable d j => exact s.kernelPool.not_taken i 512 hk hc ho
    | upage d p =>
      have := s.userPool.taken_bounds _ _ h.uStart ho
      omega
  have hself := s.kernelPool.taken_write_self i 512 hk hi
  refine ⟨?_, ⟨rfl, rfl, rfl, rfl, rfl, ?_, rfl, rfl⟩, s.kernelPool.taken_write i hi hc, hself, hfree⟩
  · exact
      { kStart := h.kStart
        uStart := h.uStart
        kLen := h.kLen
        kfreeLt := h.kfreeLt
        uLen := h.uLen
        spaces := h.spaces.mono (fun f => s.kernelPool.taken_mono_write i f) (fun f hf => hf)
          (fun f hf => by
            have := ({ s.kernelPool with poolBitmap := s.kernelPool.poolBitmap.write i 1 } : Pool).taken_bounds
              f 512 hk hf
            simp only [Bitmap.write_len] at this
            omega)
          h.spaces.userFrame
          (fun f hf hw => by
            have h1 := ({ s.kernelPool with poolBitmap := s.kernelPool.poolBitmap.write i 1 } : Pool).taken_bounds
              f 512 hk hf
            have h2 := s.userPool.taken_bounds f _ h.uStart hw
            simp only [Bitmap.write_len] at h1
            omega)
        pgdirPage := h.pgdirPage
        kernelActive := h.kernelActive
        userActive := h.userActive }
  · have := s.kernelPool.taken_write i hi hc
    simp only
    omega

/-- Handing out a frame of the user pool. -/
theorem takeUser (h : VmInv Z U kfree s) (i : Nat)
    (hi : i < 8 * s.userPool.poolBitmap.btmpBytesLen) (hc : s.userPool.poolBitmap.bit i = false)
    (s' : Vm) (hs' : s' = { s with userPool :=
      { s.userPool with poolBitmap := s.userPool.poolBitmap.write i 1 } }) :
    VmInv Z U kfree s' ∧ Frozen s s' ∧ s'.userPool.Taken (512 + kfree + i) ∧
      ∀ u, ¬ s'.Uses U u (512 + kfree + i) := by
  subst hs'
  have hu0 := h.uStart
  have hkl := h.kLen
  have hkf := h.kfreeLt
  have hul := h.uLen
  have hfree : ∀ u, ¬ s.Uses U u (512 + kfree + i) := by
    intro u hu
    have ho := h.spaces.owned u _ hu
    cases u with
    | kpage p =>
      have := s.kernelPool.taken_bounds _ _ h.kStart ho
      omega
    | utable d j =>
      have := s.kernelPool.taken_bounds _ _ h.kStart ho
      omega
    | upage d p => exact s.userPool.not_taken i (512 + kfree) hu0 hc ho
  have hself := s.userPool.taken_write_self i (512 + kfree) hu0 hi
  refine ⟨?_, ⟨rfl, rfl, rfl, rfl, rfl, Nat.le_refl _, rfl, rfl⟩, hself, hfree⟩
  exact
    { kStart := h.kStart
      uStart := h.uStart
      kLen := h.kLen
      kfreeLt := h.kfreeLt
      uLen := h.uLen
      spaces := h.spaces.mono (fun f hf => hf) (fun f => s.userPool.taken_mono_write i f)
        h.spaces.kernelFrame
        (fun f hf => by
          have := ({ s.userPool with poolBitmap := s.userPool.poolBitmap.write i 1 } : Pool).taken_bounds
            f (512 + kfree) hu0 hf
          simp only [Bitmap.write_len] at this
          omega)
        (fun f hf hw => by
          have h1 := s.kernelPool.taken_bounds f 512 h.kStart hf
          have h2 := ({ s.userPool with poolBitmap := s.userPool.poolBitmap.write i 1 } : Pool).taken_bounds
            f (512 + kfree) hu0 hw
          omega)
      pgdirPage := h.pgdirPage
      kernelActive := h.kernelActive
      userActive := h.userActive }

end VmInv

end MyOs
