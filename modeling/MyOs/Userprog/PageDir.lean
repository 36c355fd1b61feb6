import MyOs.Kernel.MemoryCalls
import MyOs.Theory.Run

/-!
# Page directories over whole runs

`create_page_dir` and `page_dir_activate` as steps between states with the invariant, and the invariant
of every run of allocator calls from the boot state (`SysInv`).

    createPageDir_debug     the words of a new directory
    addrV2p_heapPage        page_dir_activate loads the frame of the task's directory
    MemSys.step_effect      every allowed call keeps the invariant
    kernelHalf_agrees       two directories translate every kernel address alike
-/

namespace MyOs

open Paging

section
variable {Z : Prop} {U kfree : Nat} {s : Vm}

/-! ## create_page_dir -/

/-- Frame `d` holds the words of a new page directory. -/
structure DirWords (mem : Mem) (d : Nat) : Prop where
  user : ∀ i, i < 768 → mem d i = 0
  kernel : ∀ i, 768 ≤ i → i < 1023 → mem d i = mem bootDir i
  self : mem d 1023 = d * 4096 + 7

/-- A heap page translates, under the active directory, to the frame in its table entry. -/
theorem heapPage_entry (h : VmInv Z U kfree s) (q d : Nat) (hu : s.Uses U (.kpage q) d) :
    walkPage s.mem s.dir q = some d ∧ s.mem (table s.mem s.dir q) (q % 1024) = d * 4096 + 7 ∧
      s.mem s.dir (q / 1024) % 2 = 1 ∧ table s.mem s.dir q < 512 := by
  have hb := h.spaces.heapBound
  obtain ⟨h1, h2, hw⟩ := hu
  obtain ⟨f, hf, -, -, hw'⟩ := h.spaces.heap_walk q h1 h2
  have hfd : f = d := Option.some.inj (hw'.symm.trans hw)
  have htab := h.table_kernel q (by omega) (by omega)
  refine ⟨?_, ?_, ?_, ?_⟩
  · rw [h.walkPage_kernel q (by omega) (by omega)]
    exact hw
  · rw [htab, hf, hfd]
  · rw [h.dir_kernel (q / 1024) (by omega) (by omega)]
    omega
  · rw [htab]
    omega

theorem addrV2p_heapPage (h : VmInv Z U kfree s) (q d : Nat) (hu : s.Uses U (.kpage q) d) :
    addrV2p s (q * 4096) = .ok (d * 4096) := by
  obtain ⟨-, hw, hp, -⟩ := heapPage_entry h q d hu
  have hb := h.spaces.heapBound
  have hq := hu.2.1
  exact addrV2p_page s q d h.selfMapped (by omega) (h.spaces.frame_bounds _ _ hu).2 hw hp

/-- What `create_page_dir` does to the page it was given. -/
def initPageDir (b : Build) (s : Vm) (pageDirVaddr : Nat) : Except Halt Vm := do
  let s ← memcpy b s (pageDirVaddr + 0x300 * 4) (0xfffff000 + 0x300 * 4) 1024
  let newPageDirPhyAddr ← addrV2p s pageDirVaddr
  storeWord s (pageDirVaddr + 1023 * 4) (newPageDirPhyAddr ||| PG_US_U ||| PG_RW_W ||| PG_P_1)

theorem createPageDir_eq (b : Build) (s : Vm) : createPageDir b s = (do
    let (pageDirVaddr, s) ← getKernelPages b s 1
    if pageDirVaddr = NULL then pure (NULL, s)
    else
      let s ← initPageDir b s pageDirVaddr
      pure (pageDirVaddr, s)) := by
  unfold createPageDir initPageDir
  simp only [bind_assoc]

/-- The copy of the kernel half and the write of the last entry, on a zeroed heap page. -/
theorem initPageDir_heap (h : VmInv Z U kfree s) (q d : Nat) (hu : s.Uses U (.kpage q) d)
    (hdata : s.Data U d) (hzero : ∀ j, j < 1024 → s.mem d j = 0) :
    ∃ s', initPageDir .debug s (q * 4096) = .ok s' ∧ Kept Z kfree U s U s' ∧ DirWords s'.mem d := by
  have hq := hu.1
  have hdd := hdata.ne_dir h
  obtain ⟨hw, -, -, htab⟩ := heapPage_entry h q d hu
  have hhigh := hdata.high
  have hcopy := copy_page s.dir d s.dir 256 (q * 4096 + 0x300 * 4) (0xfffff000 + 0x300 * 4) s.mem
    (by rw [show (q * 4096 + 0x300 * 4) / 4096 = q by omega]; exact hw)
    (by
      rw [show (0xfffff000 + 0x300 * 4) / 4096 = 0xfffff from rfl]
      exact walkPage_dirWindow _ _ h.selfMapped) hdd hdd
    (by rw [show (q * 4096 + 0x300 * 4) / 4096 = q by omega]; omega)
    (by
      rw [show (0xfffff000 + 0x300 * 4) / 4096 = 0xfffff from rfl]
      unfold table
      rw [show 0xfffff / 1024 = 1023 from rfl, h.selfMapped.2]
      exact hdd)
    (by omega) (by decide) (by omega) (by omega)
  rw [show (q * 4096 + 0x300 * 4) % 4096 / 4 = 768 by omega] at hcopy
  have hdst : q * 4096 + 0x300 * 4 ≠ NULL := by unfold NULL; omega
  have hk1 := keptWrite h (s.mem.setRange d 768 256 (s.mem s.dir)) (fun g => g = d)
    (fun g hg => by subst hg; exact hdata)
    (fun f hf => Mem.setRange_frame_ne _ _ _ _ _ _ hf)
  -- memcpy
  obtain ⟨s1, hs1⟩ : ∃ s1, s1 = ({ s with mem := s.mem.setRange d 768 256 (s.mem s.dir) } : Vm) := ⟨_, rfl⟩
  have hcp : memcpy .debug s (q * 4096 + 0x300 * 4) (0xfffff000 + 0x300 * 4) 1024 = .ok s1 := by
    unfold memcpy
    rw [show 1024 / 4 = 256 from rfl, hcopy, decide_eq_true hdst, hs1]
    rfl
  rw [← hs1] at hk1
  -- the last entry
  have hu1 : s1.Uses U (.kpage q) d := hk1.grows _ _ hu
  have hdata1 : s1.Data U d := data_heap hk1.inv q d hu1 (fun hd => by
    rw [hk1.frozen.dirPage] at hd
    exact hdata.notDir ⟨q, hd, hu.2.2⟩)
  have hk2 := keptWrite hk1.inv (s1.mem.set d 1023 (d * 4096 + 7)) (fun g => g = d)
    (fun g hg => by subst hg; exact hdata1)
    (fun f hf => Mem.set_frame_ne _ _ _ _ _ hf)
  have hst : storeWord s1 (q * 4096 + 1023 * 4) (d * 4096 ||| PG_US_U ||| PG_RW_W ||| PG_P_1) =
      .ok { s1 with mem := s1.mem.set d 1023 (d * 4096 + 7) } := by
    unfold storeWord
    rw [store_eq s1.mem s1.dir _ _ d
      (by rw [show (q * 4096 + 1023 * 4) / 4096 = q by omega]; exact (heapPage_entry hk1.inv q d hu1).1),
      show (q * 4096 + 1023 * 4) % 4096 / 4 = 1023 by omega, entry_eq]
    rfl
  have hm1 : s1.mem = s.mem.setRange d 768 256 (s.mem s.dir) := by rw [hs1]
  have hboot : s1.mem.set d 1023 (d * 4096 + 7) bootDir = s.mem bootDir := by
    have hne : bootDir ≠ d := by unfold bootDir; omega
    rw [Mem.set_frame_ne _ _ _ _ _ hne, hm1, Mem.setRange_frame_ne _ _ _ _ _ _ hne]
  refine ⟨_, ?_, hk1.trans hk2, ?_⟩
  · unfold initPageDir
    simp only [hcp, addrV2p_heapPage hk1.inv q d hu1, bind, Except.bind]
    exact hst
  · exact
      { user := fun i hi => by
          simp only [Mem.set_slot_ne _ _ _ _ _ _ (show i ≠ 1023 by omega), hm1]
          rw [Mem.setRange_slot_out _ _ _ _ _ _ _ (by omega)]
          exact hzero i (by omega)
        kernel := fun i h1 h2 => by
          show s1.mem.set d 1023 (d * 4096 + 7) d i = s1.mem.set d 1023 (d * 4096 + 7) bootDir i
          rw [hboot, Mem.set_slot_ne _ _ _ _ _ _ (by omega), hm1,
            Mem.setRange_same _ _ _ _ _ _ h1 (by omega), h.dir_kernel i h1 h2, h.spaces.bootKernel i h1 h2]
        self := Mem.set_same _ _ _ _ }

/-- **create_page_dir** that returns a page: the next heap page, with the words of a directory. -/
theorem createPageDir_debug (h : VmInv Z U kfree s) (hh : HeapInv U s) (a : Nat) (s' : Vm)
    (hc : createPageDir .debug s = .ok (a, s')) :
    (a = NULL ∧ s' = s) ∨
    (a = (0xc0100 + U) * 4096 ∧ U + 1 ≤ 8 * s.kernelVaddr.vaddrBitmap.btmpBytesLen ∧
      HeapInv (U + 1) s' ∧ Kept Z kfree U { s with kernelVaddr := s'.kernelVaddr } (U + 1) s' ∧
      ∃ d, s'.Uses (U + 1) (.kpage (0xc0100 + U)) d ∧ DirWords s'.mem d) := by
  rw [createPageDir_eq] at hc
  obtain ⟨⟨a1, s1⟩, hg, hr⟩ := (bind_eq_ok _ _ _).mp hc
  rcases getKernelPages_debug h hh 1 a1 s1 hg with ⟨rfl, rfl⟩ | ⟨rfl, -, hend, hh1, hk1, hnew⟩
  · left
    simp only [if_true, pure_eq_ok, Except.ok.injEq, Prod.mk.injEq] at hr
    exact ⟨hr.1.symm, hr.2.symm⟩
  · right
    obtain ⟨d, hu, hdata, hzero⟩ := hnew 0 (by decide)
    obtain ⟨s2, hinit, hk2, hwords⟩ := initPageDir_heap hk1.inv (0xc0100 + U) d hu hdata hzero
    dsimp only at hr
    rw [if_neg (show (0xc0100 + U) * 4096 ≠ NULL by unfold NULL; omega)] at hr
    simp only [hinit, bind, Except.bind, pure_eq_ok, Except.ok.injEq, Prod.mk.injEq] at hr
    obtain ⟨rfl, rfl⟩ := hr
    refine ⟨rfl, hend, hh1.ofFrozen hk2.frozen, ?_, d, hk2.grows _ _ hu, hwords⟩
    rw [hk2.frozen.kernelVaddr]
    exact hk1.trans hk2

/-- `create_page_dir` returns a page when `get_kernel_pages` does. -/
theorem createPageDir_returns (h : VmInv Z U kfree s) (hh : HeapInv U s) (s1 : Vm)
    (hg : getKernelPages .debug s 1 = .ok ((0xc0100 + U) * 4096, s1)) :
    ∃ s', createPageDir .debug s = .ok ((0xc0100 + U) * 4096, s') := by
  have hne : (0xc0100 + U) * 4096 ≠ NULL := by unfold NULL; omega
  rcases getKernelPages_debug h hh 1 _ s1 hg with ⟨he, -⟩ | ⟨-, -, -, -, hk1, hnew⟩
  · exact absurd he hne
  · obtain ⟨d, hu, hdata, hzero⟩ := hnew 0 (by decide)
    obtain ⟨s2, hinit, -⟩ := initPageDir_heap hk1.inv (0xc0100 + U) d hu hdata hzero
    refine ⟨s2, ?_⟩
    rw [createPageDir_eq]
    simp only [hg, hinit, bind, Except.bind, if_neg hne, pure_eq_ok]

/-! ## Steps of the run -/

/-- What a call leaves of the tasks: a process keeps its directory, the running task keeps running, and
the other tasks keep their address pools. -/
structure TasksKept (s s' : Vm) : Prop where
  pgdir : ∀ t, (s.task t).pgdir ≠ NULL → (s'.task t).pgdir = (s.task t).pgdir
  bits : ∀ t j, (s.task t).pgdir ≠ NULL → (s.task t).userprogVaddr.vaddrBitmap.bit j = true →
    (s'.task t).userprogVaddr.vaddrBitmap.bit j = true
  kLen : s'.kernelPool.poolBitmap.btmpBytesLen = s.kernelPool.poolBitmap.btmpBytesLen

theorem TasksKept.ofTask {s' : Vm} (ht : s'.task = s.task)
    (hk : s'.kernelPool.poolBitmap.btmpBytesLen = s.kernelPool.poolBitmap.btmpBytesLen) :
    TasksKept s s' where
  pgdir t _ := by rw [ht]
  bits t j _ hb := by rw [ht]; exact hb
  kLen := hk

/-- The invariant of a run of calls. -/
structure SysInv (Z : Prop) (kfree U : Nat) (s : Vm) : Prop where
  vm : VmInv Z U kfree s
  heap : HeapInv U s
  lock : s.userPool.lock = lockInit
  process : ∀ t, (s.task t).pgdir ≠ NULL → (s.task t).userprogVaddr.vaddrStart = USER_VADDR_START ∧
    (s.task t).userprogVaddr.vaddrBitmap.btmpBytesLen = userBtmpBytesLen

theorem SysInv.userInv (h : SysInv Z kfree U s) (hp : (s.task s.cur).pgdir ≠ NULL) : UserInv s :=
  ⟨hp, (h.process _ hp).1, (h.process _ hp).2⟩

/-- After a call by the kernel. -/
theorem SysInv.ofKernel {U' : Nat} {s' : Vm} (h : SysInv Z kfree U s) (hh : HeapInv U' s')
    (hk : Kept Z kfree U { s with kernelVaddr := s'.kernelVaddr } U' s') : SysInv Z kfree U' s' where
  vm := hk.inv
  heap := hh
  lock := hk.frozen.uLock.trans h.lock
  process t hp := by
    rw [hk.frozen.task] at hp ⊢
    exact h.process t hp

/-- After a call by the running process that took pages of its address pool. -/
theorem SysInv.ofUser {s' : Vm} {st n : Nat} {va : VirtualAddr} (h : SysInv Z kfree U s)
    (hv : VaddrTaken (s.task s.cur).userprogVaddr st n va)
    (hk : Kept Z kfree U (s.withVaddr va) U s') : SysInv Z kfree U s' ∧ TasksKept s s' := by
  have htask : s'.task = (s.withVaddr va).task := hk.frozen.task
  have hpg : ∀ t, (s'.task t).pgdir = (s.task t).pgdir := by
    intro t
    rw [htask]
    exact withVaddr_pgdir s va t
  have hvaddr : ∀ t, (s'.task t).userprogVaddr =
      if t = s.cur then va else (s.task t).userprogVaddr := by
    intro t
    rw [htask]
    unfold Vm.withVaddr
    by_cases ht : t = s.cur
    · subst ht
      simp only [Function.update_self, if_true]
    · simp only [Function.update_of_ne ht, if_neg ht]
  constructor
  · exact
      { vm := hk.inv
        heap := HeapInv.ofFrozen (s := s.withVaddr va) ⟨h.heap.start, h.heap.len, h.heap.bits,
          h.heap.covered⟩ hk.frozen
        lock := hk.frozen.uLock.trans h.lock
        process := by
          intro t hp
          rw [hpg] at hp
          obtain ⟨h1, h2⟩ := h.process t hp
          rw [hvaddr]
          split
          · next ht =>
            subst ht
            exact ⟨hv.start.trans h1, hv.len.trans h2⟩
          · exact ⟨h1, h2⟩ }
  · exact
      { pgdir := fun t _ => hpg t
        bits := by
          intro t j _ hb
          rw [hvaddr]
          split
          · next ht =>
            subst ht
            rw [hv.bits, hb, Bool.or_true]
          · exact hb
        kLen := hk.frozen.kLen }

/-- The address pool of a task without a directory does not matter. -/
theorem SysInv.ofNoDir (h : SysInv Z kfree U s) (t : Nat) (ht : (s.task t).pgdir = NULL)
    (va : VirtualAddr) :
    let s' : Vm := { s with task := Function.update s.task t { pgdir := NULL, userprogVaddr := va } }
    SysInv Z kfree U s' ∧ s.Grows U s' U ∧ TasksKept s s' := by
  intro s'
  have hpg : ∀ t', (s'.task t').pgdir = (s.task t').pgdir := by
    intro t'
    by_cases hne : t' = t
    · subst hne
      simp only [s', Function.update_self, ht]
    · simp only [s', Function.update_of_ne hne]
  have hproc : ∀ t', (s.task t').pgdir ≠ NULL → s'.task t' = s.task t' :=
    fun t' hp => Function.update_of_ne (fun e => hp (by rw [e]; exact ht)) _ _
  have hdp : s'.DirPage = s.DirPage := by
    funext p
    simp only [Vm.DirPage, hpg]
  refine ⟨⟨h.vm.congr rfl rfl rfl hpg rfl rfl rfl rfl,
    ⟨h.heap.start, h.heap.len, h.heap.bits, h.heap.covered⟩, h.lock, fun t' hp => ?_⟩, ?_, ?_⟩
  · rw [hpg] at hp
    rw [hproc t' hp]
    exact h.process t' hp
  · unfold Vm.Grows
    rw [hdp]
    exact fun _ _ hu => hu
  · exact
      { pgdir := fun t' _ => hpg t'
        bits := fun t' j hp hb => by rw [hproc t' hp]; exact hb
        kLen := rfl }

/-- A new directory page becomes the directory of task `t`. -/
theorem SysInv.ofCreate {d : Nat} (h : SysInv Z kfree U s) (t q : Nat)
    (ht : (s.task t).pgdir = NULL) (hcur : t ≠ s.cur) (hu : s.Uses U (.kpage q) d)
    (hw : DirWords s.mem d) (s' : Vm)
    (hs' : s' = { s with
      task := Function.update s.task t { pgdir := q * 4096, userprogVaddr := newUserVaddr } }) :
    SysInv Z kfree U s' ∧ s.Grows U s' U ∧ TasksKept s s' := by
  have hq := hu.1
  have hself : s'.task t = { pgdir := q * 4096, userprogVaddr := newUserVaddr } := by
    rw [hs']
    exact Function.update_self t _ _
  have hother : ∀ t', t' ≠ t → s'.task t' = s.task t' := by
    intro t' hne
    rw [hs']
    exact Function.update_of_ne hne _ _
  have hdp : s'.DirPage = fun p => s.DirPage p ∨ p = q := by
    funext p
    apply propext
    constructor
    · rintro ⟨t', h1, h2⟩
      by_cases hne : t' = t
      · subst hne
        rw [hself] at h2
        simp only at h2
        exact Or.inr (by omega)
      · rw [hother t' hne] at h1 h2
        exact Or.inl ⟨t', h1, h2⟩
    · rintro (⟨t', h1, h2⟩ | rfl)
      · have hne : t' ≠ t := fun e => h1 (e ▸ ht)
        exact ⟨t', by rw [hother t' hne]; exact h1, by rw [hother t' hne]; exact h2⟩
      · refine ⟨t, ?_, by rw [hself]⟩
        rw [hself]
        unfold NULL
        simp only
        omega
  obtain ⟨hsp, hg⟩ := h.vm.spaces.addDir q d hu.1 hu.2.1 hu.2.2 hw.user hw.kernel hw.self
  have hproc : ∀ t', (s.task t').pgdir ≠ NULL → s'.task t' = s.task t' :=
    fun t' hp => hother t' (fun e => hp (e ▸ ht))
  refine ⟨⟨?_, ?_, ?_, ?_⟩, ?_, ?_⟩
  · subst hs'
    exact
      { kStart := h.vm.kStart
        uStart := h.vm.uStart
        kLen := h.vm.kLen
        kfreeLt := h.vm.kfreeLt
        uLen := h.vm.uLen
        spaces := by rw [hdp]; exact hsp
        pgdirPage := by
          intro t'
          by_cases hne : t' = t
          · subst hne
            rw [hself]
            exact ⟨q, rfl⟩
          · rw [hother t' hne]
            exact h.vm.pgdirPage t'
        kernelActive := by
          simp only [Function.update_of_ne hcur.symm]
          exact h.vm.kernelActive
        userActive := by
          simp only [Function.update_of_ne hcur.symm]
          exact h.vm.userActive }
  · subst hs'
    exact ⟨h.heap.start, h.heap.len, h.heap.bits, h.heap.covered⟩
  · subst hs'
    exact h.lock
  · intro t' hp
    by_cases hne : t' = t
    · subst hne
      rw [hself]
      exact ⟨rfl, rfl⟩
    · rw [hother t' hne] at hp ⊢
      exact h.process t' hp
  · unfold Vm.Grows
    rw [hdp]
    subst hs'
    exact hg
  · exact
      { pgdir := fun t' hp => by rw [hproc t' hp]
        bits := fun t' j hp hb => by rw [hproc t' hp]; exact hb
        kLen := by rw [hs'] }

/-- **page_dir_activate** of task `t`: `cr3` is the frame of its directory. -/
theorem SysInv.ofActivate (h : SysInv Z kfree U s) (t : Nat) (s' : Vm)
    (hc : pageDirActivate s t = .ok s') : SysInv Z kfree U { s' with cur := t } ∧ s'.mem = s.mem ∧
      s'.task = s.task ∧ s'.kernelPool = s.kernelPool := by
  unfold pageDirActivate at hc
  obtain ⟨a, ha, hc⟩ := (bind_eq_ok _ _ _).mp hc
  simp only [pure_eq_ok, Except.ok.injEq] at hc
  subst hc
  obtain ⟨p, hp⟩ := h.vm.pgdirPage t
  refine ⟨⟨?_, ⟨h.heap.start, h.heap.len, h.heap.bits, h.heap.covered⟩, h.lock, h.process⟩, rfl, rfl, rfl⟩
  exact
    { kStart := h.vm.kStart
      uStart := h.vm.uStart
      kLen := h.vm.kLen
      kfreeLt := h.vm.kfreeLt
      uLen := h.vm.uLen
      spaces := h.vm.spaces
      pgdirPage := h.vm.pgdirPage
      kernelActive := by
        intro hn
        rw [pagedirPhyAddr, if_neg (fun hne => hne hn)] at ha
        exact (Except.ok.inj ha).symm
      userActive := by
        intro p hp hne
        have hn : (s.task t).pgdir ≠ NULL := by
          rw [hp]
          unfold NULL
          omega
        have hdp : s.DirPage p := ⟨t, hn, hp⟩
        obtain ⟨h1, h2⟩ := h.vm.spaces.pgHeap p hdp
        obtain ⟨d, -, hu⟩ := h.vm.spaces.heap_walk p h1 h2
        rw [pagedirPhyAddr, if_pos hn, hp, addrV2p_heapPage h.vm p d hu] at ha
        exact ⟨d, hu.2.2, (Except.ok.inj ha).symm⟩ }

/-- `page_dir_activate` returns for every task. -/
theorem pageDirActivate_returns (h : VmInv Z U kfree s) (t : Nat) : ∃ s', pageDirActivate s t = .ok s' := by
  unfold pageDirActivate pagedirPhyAddr
  by_cases hn : (s.task t).pgdir ≠ NULL
  · obtain ⟨p, hp⟩ := h.pgdirPage t
    obtain ⟨h1, h2⟩ := h.spaces.pgHeap p ⟨t, hn, hp⟩
    obtain ⟨d, -, hu⟩ := h.spaces.heap_walk p h1 h2
    rw [if_pos hn, hp, addrV2p_heapPage h p d hu]
    exact ⟨_, rfl⟩
  · rw [if_neg hn]
    exact ⟨_, rfl⟩

/-- How a call extends the ranges handed out: not at all, by the next pages of the heap, or by pages of
the running process that were free. -/
inductive Extends (op : MemOp) (U : Nat) (s : MemSys) (U' : Nat) (s' : MemSys) : Prop where
  | same (next : U' = U) (hist : s'.hist = s.hist)
  | kernel (n : Nat) (pos : 0 < n) (next : U' = U + n)
      (fits : U + n ≤ 8 * s.vm.kernelPool.poolBitmap.btmpBytesLen)
      (hist : s'.hist = { space := none, start := (0xc0100 + U) * 4096, pages := n } :: s.hist)
  | user (v n : Nat) (next : U' = U) (pos : 0 < n) (aligned : v % 4096 = 0 ∨ op = .getAPage v)
      (low : 0x8048 ≤ v / 4096) (high : v / 4096 + n ≤ 0xc0000)
      (process : (s.vm.task s.vm.cur).pgdir ≠ NULL)
      (free : (∀ i, i < n →
          (s.vm.task s.vm.cur).userprogVaddr.vaddrBitmap.bit (v / 4096 - 0x8048 + i) = false) ∨
        (n = 1 ∧ walkPage s.vm.mem s.vm.dir (v / 4096) = none))
      (taken : ∀ i, i < n →
        (s'.vm.task s.vm.cur).userprogVaddr.vaddrBitmap.bit (v / 4096 - 0x8048 + i) = true)
      (mapped : ∀ i, i < n → ∃ f, s'.vm.Uses U' (.upage s.vm.dir (v / 4096 + i)) f)
      (hist : s'.hist = { space := some s.vm.cur, start := v, pages := n } :: s.hist)

theorem taken_running {s' : Vm} {st n : Nat} {va : VirtualAddr}
    (hv : VaddrTaken (s.task s.cur).userprogVaddr st n va) (ht : s'.task = (s.withVaddr va).task) (i : Nat)
    (hi : i < n) : (s'.task s.cur).userprogVaddr.vaddrBitmap.bit (st + i) = true := by
  rw [ht]
  unfold Vm.withVaddr
  simp only [Function.update_self, hv.bits, Bool.or_eq_true, decide_eq_true_eq]
  left
  omega

end

/-- **What one call does.** -/
theorem MemSys.step_effect {Z : Prop} {kfree U : Nat} {s : MemSys} (h : SysInv Z kfree U s.vm)
    (op : MemOp) (ha : op.Allowed s) (s' : MemSys) (hs : s.step op = .ok s') :
    ∃ U', SysInv Z kfree U' s'.vm ∧ s.vm.Grows U s'.vm U' ∧ TasksKept s.vm s'.vm ∧
      Extends op U s U' s' := by
  have hlen := h.heap.len
  cases op with
  | getKernelPages n =>
    obtain ⟨⟨a, vm⟩, hc, hs⟩ := (bind_eq_ok _ _ _).mp hs
    simp only [pure_eq_ok, Except.ok.injEq] at hs
    subst hs
    rcases getKernelPages_debug h.vm h.heap n a vm hc with ⟨rfl, rfl⟩ | ⟨rfl, hn, hfit, hh, hk, -⟩
    · exact ⟨U, h, fun _ _ hu => hu, TasksKept.ofTask rfl rfl, .same rfl (by simp [record])⟩
    · have hnn : (0xc0100 + U) * 4096 ≠ NULL := by unfold NULL; omega
      refine ⟨U + n, h.ofKernel hh hk, hk.grows, TasksKept.ofTask hk.frozen.task hk.frozen.kLen,
        .kernel n hn rfl (by omega) ?_⟩
      simp only [record, if_neg hnn]
  | getUserPages n =>
    obtain ⟨⟨a, vm⟩, hc, hs⟩ := (bind_eq_ok _ _ _).mp hs
    simp only [pure_eq_ok, Except.ok.injEq] at hs
    subst hs
    rcases getUserPages_debug h.vm (h.userInv ha) h.lock n a vm hc with
      ⟨rfl, rfl⟩ | ⟨st, va, rfl, hn, hend, hrun, hv, hk, hmap⟩
    · exact ⟨U, h, fun _ _ hu => hu, TasksKept.ofTask rfl rfl, .same rfl (by simp [record])⟩
    · obtain ⟨hinv, hkept⟩ := h.ofUser hv hk
      have hpg : (0x8048 + st) * 4096 / 4096 = 0x8048 + st := by omega
      have hidx : (0x8048 + st) * 4096 / 4096 - 0x8048 = st := by omega
      have hnn : (0x8048 + st) * 4096 ≠ NULL := by unfold NULL; omega
      refine ⟨U, hinv, hk.growsFrom, hkept, .user ((0x8048 + st) * 4096) n rfl hn (Or.inl (by omega)) (by omega)
        (by omega) ha (Or.inl ?_) ?_ ?_ ?_⟩
      · rw [hidx]
        exact hrun.clear
      · rw [hidx]
        exact fun i hi => taken_running hv hk.frozen.task i hi
      · rw [hpg]
        exact hmap
      · simp only [record, if_neg hnn]
  | getAPage v =>
    obtain ⟨hp, hv1, hv2⟩ := ha
    obtain ⟨⟨a, vm⟩, hc, hs⟩ := (bind_eq_ok _ _ _).mp hs
    simp only [pure_eq_ok, Except.ok.injEq] at hs
    subst hs
    obtain ⟨rfl, hnone, va, hv, hk, hmap⟩ := getAPage_debug h.vm (h.userInv hp) h.lock v a hv1 hv2 vm hc
    obtain ⟨hinv, hkept⟩ := h.ofUser hv hk
    unfold USER_VADDR_START at hv1
    have hnn : a ≠ NULL := by unfold NULL; omega
    refine ⟨U, hinv, hk.growsFrom, hkept, .user a 1 rfl (by decide) (Or.inr rfl) (by omega) (by omega) hp
      (Or.inr ⟨rfl, hnone⟩) (fun i hi => taken_running hv hk.frozen.task i hi) ?_ ?_⟩
    · intro i hi
      rw [show a / 4096 + i = a / 4096 by omega]
      exact hmap
    · simp only [record, if_neg hnn]
  | createPageDir t =>
    obtain ⟨ht, hcur⟩ := ha
    obtain ⟨⟨a, vm⟩, hc, hs⟩ := (bind_eq_ok _ _ _).mp hs
    simp only [pure_eq_ok, Except.ok.injEq] at hs
    subst hs
    rcases createPageDir_debug h.vm h.heap a vm hc with ⟨rfl, rfl⟩ | ⟨rfl, hfit, hh, hk, d, hu, hw⟩
    · -- no page: the new task has no directory, and nobody else is concerned
      obtain ⟨hinv, hg, hk⟩ := h.ofNoDir t ht newUserVaddr
      exact ⟨U, hinv, hg, hk, .same rfl (by simp [record])⟩
    · have hnn : (0xc0100 + U) * 4096 ≠ NULL := by unfold NULL; omega
      have h1 : SysInv Z kfree (U + 1) vm := h.ofKernel hh hk
      have htask : vm.task = s.vm.task := hk.frozen.task
      have hcur1 : vm.cur = s.vm.cur := hk.frozen.cur
      obtain ⟨h2, hg2, hk2⟩ := h1.ofCreate t (0xc0100 + U) (by rw [htask]; exact ht)
        (by rw [hcur1]; exact hcur) hu hw _ rfl
      refine ⟨U + 1, h2, ?_, ?_, .kernel 1 (by decide) rfl (by omega) ?_⟩
      · exact Vm.Grows.trans hk.grows hg2
      · exact
          { pgdir := fun t' hp => by
              rw [hk2.pgdir t' (by rw [htask]; exact hp), htask]
            bits := fun t' j hp hb => hk2.bits t' j (by rw [htask]; exact hp) (by rw [htask]; exact hb)
            kLen := hk2.kLen.trans hk.frozen.kLen }
      · simp only [record, if_neg hnn]
  | pageDirActivate t =>
    obtain ⟨vm, hc, hs⟩ := (bind_eq_ok _ _ _).mp hs
    simp only [pure_eq_ok, Except.ok.injEq] at hs
    subst hs
    obtain ⟨hinv, hmem, htask, hpool⟩ := h.ofActivate t vm hc
    refine ⟨U, hinv, ?_, TasksKept.ofTask htask (by simp only [hpool]), .same rfl rfl⟩
    have hdp : vm.DirPage = s.vm.DirPage := by
      funext p
      simp only [Vm.DirPage, htask]
    intro u f hu
    show MyOs.Uses vm.mem vm.DirPage U u f
    rw [hmem, hdp]
    exact hu

/-! ## Runs from boot -/

/-- The kernel's page tables hold no entry above the first megabyte. -/
def TablesEmpty (ram : Mem) : Prop :=
  ∀ p, 0xc0100 ≤ p → p < 0xffc00 → ram (p / 1024 - 511) (p % 1024) % 2 = 0

theorem Pool.taken_init (p : Pool) (btmp : Bitmap) (hp : p.poolBitmap = bitmapInit btmp) (f : Nat) :
    ¬ p.Taken f := by
  rintro ⟨-, h2, h3⟩
  rw [hp] at h2 h3
  rw [bit_bitmapInit btmp _ h2] at h3
  cases h3

theorem bootVm_spaces (allMem : Nat) (junk : Nat → Nat → UInt8) (ram : Mem) (K W : Nat → Prop)
    (hK : ∀ f, ¬ K f) (hW : ∀ f, ¬ W f) :
    Spaces (TablesEmpty ram) (setupPage ram) (bootVm allMem junk ram).DirPage 0 K W := by
  have hno : ∀ p, ¬ (bootVm allMem junk ram).DirPage p := by
    rintro p ⟨t, h1, -⟩
    exact h1 rfl
  have hdir : ∀ d, ¬ IsDir (setupPage ram) (bootVm allMem junk ram).DirPage d := by
    rintro d ⟨p, hp, -⟩
    exact hno p hp
  have huse : ∀ u f, ¬ Uses (setupPage ram) (bootVm allMem junk ram).DirPage 0 u f := by
    intro u f hu
    cases u with
    | kpage p =>
      have h1 := hu.1
      have h2 := hu.2.1
      omega
    | utable d i => exact hdir d hu.1
    | upage d p => exact hdir d hu.1
  exact
    { bootKernel := setupPage_kernel ram
      bootSelf := setupPage_self ram
      bootLow := setupPage_low ram
      lowTable := setupPage_table ram
      heap := fun p h1 h2 => absurd h2 (by omega)
      heapBound := by decide
      clean := fun hz p h1 h2 => by
        rw [setupPage_other ram _ _ (by unfold bootDir; omega) (by omega)]
        exact hz p h1 h2
      pgHeap := fun p hp => absurd hp (hno p)
      dirKernel := fun d hd => absurd hd (hdir d)
      dirSelf := fun d hd => absurd hd (hdir d)
      dirLow := fun d hd => absurd hd (hdir d)
      unique := fun u u' f hu => absurd hu (huse u f)
      owned := fun u f hu => absurd hu (huse u f)
      kernelFrame := fun f hf => absurd hf (hK f)
      userFrame := fun f hf => absurd hf (hW f)
      disjoint := fun f hf => absurd hf (hK f) }

theorem bootVm_vmInv (allMem : Nat) (junk : Nat → Nat → UInt8) (ram : Mem) :
    VmInv (TablesEmpty ram) 0 (poolLayout allMem).kernelFreePages (bootVm allMem junk ram) where
  kStart := by simp only [bootVm, memPoolInit, poolLayout, PG_SIZE]
  uStart := by
    simp only [bootVm, memPoolInit, poolLayout, PG_SIZE]
    omega
  kLen := by
    simp only [bootVm, memPoolInit, poolLayout, bitmapInit]
    omega
  kfreeLt := by
    simp only [poolLayout]
    omega
  uLen := by
    simp only [bootVm, memPoolInit, poolLayout, bitmapInit]
    omega
  spaces := by
    rw [bootVm_mem]
    refine bootVm_spaces allMem junk ram _ _ ?_ ?_
    · exact Pool.taken_init _ { btmpBytesLen := (poolLayout allMem).kbmLength, bits := junk 0 } rfl
    · exact Pool.taken_init _ { btmpBytesLen := (poolLayout allMem).ubmLength, bits := junk 1 } rfl
  pgdirPage := fun t => ⟨0, by simp only [bootVm, memPoolInit, NULL]⟩
  kernelActive := fun _ => by simp only [bootVm, memPoolInit, PAGE_DIR_TABLE_POS, bootDir]
  userActive := fun p hp hne => by
    simp only [bootVm, memPoolInit, NULL] at hp
    omega

theorem bootVm_heapInv (allMem : Nat) (junk : Nat → Nat → UInt8) (ram : Mem) :
    HeapInv 0 (bootVm allMem junk ram) where
  start := by simp only [bootVm, memPoolInit]
  len := by simp only [bootVm, memPoolInit, bitmapInit_len]
  bits := fun i hi => by
    simp only [bootVm, memPoolInit, bitmapInit_len] at hi ⊢
    rw [bit_bitmapInit _ i hi]
    simp
  covered := Nat.zero_le _

/-- `loader.S` and `mem_pool_init` establish the invariant, whatever memory held before. -/
theorem bootVm_inv (allMem : Nat) (junk : Nat → Nat → UInt8) (ram : Mem) :
    SysInv (TablesEmpty ram) (poolLayout allMem).kernelFreePages 0 (bootVm allMem junk ram) where
  vm := bootVm_vmInv allMem junk ram
  heap := bootVm_heapInv allMem junk ram
  lock := by simp only [bootVm, memPoolInit]
  process := fun t hp => absurd (by simp only [bootVm, memPoolInit]) hp

/-- The invariant holds in every state of every run. -/
theorem runs_inv (allMem : Nat) (junk : Nat → Nat → UInt8) (ram : Mem) (ops : List MemOp) (s : MemSys)
    (hr : Runs MemSys.step MemOp.Allowed (bootSys allMem junk ram) ops s) :
    ∃ U, SysInv (TablesEmpty ram) (poolLayout allMem).kernelFreePages U s.vm := by
  refine Runs.invariant (fun s => ∃ U, SysInv (TablesEmpty ram) (poolLayout allMem).kernelFreePages U s.vm)
    ?_ ops _ s ⟨0, bootVm_inv allMem junk ram⟩ hr
  rintro s op s' ⟨U, h⟩ hg hs
  obtain ⟨U', h', -⟩ := MemSys.step_effect h op hg s' hs
  exact ⟨U', h'⟩

/-- Frame `d` is a page directory created so far: the boot directory, or that of a task. -/
def Vm.Directory (s : Vm) (d : Nat) : Prop :=
  d = bootDir ∨ ∃ t, (s.task t).pgdir ≠ NULL ∧ walk s.mem bootDir (s.task t).pgdir = some (d * 4096)

theorem directory_isDir {Z : Prop} {U kfree : Nat} {s : Vm} (h : VmInv Z U kfree s) (d : Nat)
    (hd : s.Directory d) : d = bootDir ∨ IsDir s.mem s.DirPage d := by
  rcases hd with hd | ⟨t, hn, hw⟩
  · exact Or.inl hd
  · right
    obtain ⟨p, hp⟩ := h.pgdirPage t
    refine ⟨p, ⟨t, hn, hp⟩, ?_⟩
    unfold walk at hw
    rw [hp, Nat.mul_div_cancel _ (by decide), Nat.mul_mod_left] at hw
    obtain ⟨f, hf, he⟩ := Option.map_eq_some_iff.mp hw
    rw [hf, show f = d by omega]

/-- **All address spaces agree on the kernel half.**  In every state of every run, two directories
translate every address of `[0xc0000000, 0xffc00000)` alike, and the last entry of each names the
directory itself. -/
theorem kernelHalf_agrees (allMem : Nat) (junk : Nat → Nat → UInt8) (ram : Mem) (ops : List MemOp)
    (s : MemSys) (hr : Runs MemSys.step MemOp.Allowed (bootSys allMem junk ram) ops s) :
    (∀ d d' v, s.vm.Directory d → s.vm.Directory d' → 0xc0000000 ≤ v → v < 0xffc00000 →
      walk s.vm.mem d v = walk s.vm.mem d' v) ∧
    (∀ d, s.vm.Directory d → s.vm.mem d 1023 = d * 4096 + 7 ∧ walk s.vm.mem d 0xfffff000 = some (d * 4096)) := by
  obtain ⟨U, h⟩ := runs_inv allMem junk ram ops s hr
  have hsp := h.vm.spaces
  have hboot : ∀ d v, s.vm.Directory d → 0xc0000000 ≤ v → v < 0xffc00000 →
      walk s.vm.mem d v = walk s.vm.mem bootDir v := by
    intro d v hd h1 h2
    rcases directory_isDir h.vm d hd with rfl | hd
    · rfl
    · exact walk_congr (hsp.walkPage_dir d (v / 4096) hd (by omega) (by omega))
  constructor
  · intro d d' v hd hd' h1 h2
    rw [hboot d v hd h1 h2, hboot d' v hd' h1 h2]
  · intro d hd
    have hself : s.vm.mem d 1023 = d * 4096 + 7 := by
      rcases directory_isDir h.vm d hd with rfl | hd
      · exact hsp.bootSelf
      · exact hsp.dirSelf d hd
    have hs : SelfMapped s.vm.mem d := by
      unfold SelfMapped
      rw [hself]
      omega
    have hwalk : walkPage s.vm.mem d (0xfffff000 / 4096) = some d := walkPage_dirWindow _ _ hs
    refine ⟨hself, ?_⟩
    rw [walk_of_walkPage hwalk, show 0xfffff000 % 4096 = 0 by decide, Nat.add_zero]

/-- A new process can be made and switched to while the bitmaps have a free bit. -/
theorem newProcess_runs {Z : Prop} {U kfree : Nat} (s : MemSys) (h : SysInv Z kfree U s.vm) (hz : Z)
    (i j : Nat) (hv : bitmapScan .debug s.vm.kernelVaddr.vaddrBitmap 1 = .ok (some i))
    (hp : bitmapScan .debug s.vm.kernelPool.poolBitmap 1 = .ok (some j)) (t : Nat)
    (ha : (MemOp.createPageDir t).Allowed s) :
    ∃ s', Runs MemSys.step MemOp.Allowed s [.createPageDir t, .pageDirActivate t] s' ∧ s'.vm.cur = t ∧
      (s'.vm.task t).pgdir = (0xc0100 + U) * 4096 := by
  obtain ⟨s1, hg⟩ := getKernelPages_one h.vm hz h.heap i j hv hp
  obtain ⟨s2, hc⟩ := createPageDir_returns h.vm h.heap s1 hg
  have hstep : ∃ s3, s.step (.createPageDir t) = .ok s3 ∧
      (s3.vm.task t).pgdir = (0xc0100 + U) * 4096 := by
    simp only [MemSys.step, hc, bind, Except.bind, pure_eq_ok]
    exact ⟨_, rfl, by simp only [Function.update_self]⟩
  obtain ⟨s3, hstep, hpg⟩ := hstep
  obtain ⟨U', h1, -⟩ := MemSys.step_effect h (.createPageDir t) ha s3 hstep
  obtain ⟨s4, hact⟩ := pageDirActivate_returns h1.vm t
  obtain ⟨-, -, htask, -⟩ := h1.ofActivate t s4 hact
  refine ⟨{ vm := { s4 with cur := t }, hist := s3.hist }, ⟨ha, s3, hstep, trivial, _, ?_, rfl⟩, rfl, ?_⟩
  · simp only [MemSys.step, hact, bind, Except.bind, pure_eq_ok]
  · simp only [htask, hpg]

/-- A machine with 4 MB of zeroed memory gets to its first process. -/
theorem firstProcess_runs : ∃ s, Runs MemSys.step MemOp.Allowed
    (bootSys 0x400000 (fun _ _ => 0) fun _ _ => 0) [.createPageDir 1, .pageDirActivate 1] s ∧
      s.vm.cur = 1 ∧ (s.vm.task 1).pgdir ≠ NULL := by
  obtain ⟨s, hr, hcur, hpg⟩ := newProcess_runs (bootSys 0x400000 (fun _ _ => 0) fun _ _ => 0)
    (bootVm_inv 0x400000 (fun _ _ => 0) fun _ _ => 0) (fun _ _ _ => rfl) 0 0 rfl rfl 1
    ⟨rfl, by simp [bootSys, bootVm, memPoolInit]⟩
  refine ⟨s, hr, hcur, ?_⟩
  rw [hpg]
  decide

/-- The directory of the first process and the boot directory agree. -/
theorem kernelHalf_agrees_firstProcess : ∃ s : MemSys, s.vm.cur = 1 ∧ (s.vm.task 1).pgdir ≠ NULL ∧
    ∀ d v, s.vm.Directory d → 0xc0000000 ≤ v → v < 0xffc00000 →
      walk s.vm.mem d v = walk s.vm.mem bootDir v := by
  obtain ⟨s, hr, hcur, hpg⟩ := firstProcess_runs
  exact ⟨s, hcur, hpg, fun d v hd h1 h2 =>
    (kernelHalf_agrees _ _ _ _ s hr).1 d bootDir v hd (Or.inl rfl) h1 h2⟩

end MyOs
