import MyOs.Userprog.PageDir

/-!
# The page allocator over whole runs

What the callers of the allocator rely on, for every run of calls from the boot state.

    allocator_sound
      (a) the ranges handed out are page-aligned, inside their region, and disjoint in one address space
      (b) every frame is in use at most once, page tables included
      (c) a frame in use has its bit set in the pool it came from
-/

namespace MyOs

open Paging

/-! ## The ranges handed out -/

/-- Two ranges of one address space do not overlap. -/
def Range.Apart (r r' : Range) : Prop :=
  r.space = r'.space → r.start + r.pages * PG_SIZE ≤ r'.start ∨ r'.start + r'.pages * PG_SIZE ≤ r.start

/-- The region of an address space: the kernel heap with its `8 * len` pages, or the user half. -/
def Range.InRegion (len : Nat) (r : Range) : Prop :=
  match r.space with
  | none => K_HEAP_START ≤ r.start ∧ r.start + r.pages * PG_SIZE ≤ K_HEAP_START + 8 * len * PG_SIZE
  | some _ => USER_VADDR_START ≤ r.start ∧ r.start + r.pages * PG_SIZE ≤ 0xc0000000

/-- A range of the kernel: pages of the heap below the next free one. -/
structure KernelRange (U : Nat) (r : Range) : Prop where
  aligned : r.start % 4096 = 0
  low : 0xc0100 ≤ r.start / 4096
  high : r.start / 4096 + r.pages ≤ 0xc0100 + U

/-- A range of task `t`: pages of the user half that are mapped under its directory and whose bits are
set in its address pool. -/
structure UserRange (U : Nat) (s : Vm) (t : Nat) (r : Range) : Prop where
  process : (s.task t).pgdir ≠ NULL
  aligned : r.start % 4096 = 0
  low : 0x8048 ≤ r.start / 4096
  high : r.start / 4096 + r.pages ≤ 0xc0000
  taken : ∀ i, i < r.pages →
    (s.task t).userprogVaddr.vaddrBitmap.bit (r.start / 4096 - 0x8048 + i) = true
  mapped : ∃ q d, (s.task t).pgdir = q * 4096 ∧ s.Uses U (.kpage q) d ∧
    ∀ i, i < r.pages → ∃ f, s.Uses U (.upage d (r.start / 4096 + i)) f

def Range.Kept (U : Nat) (s : Vm) (r : Range) : Prop :=
  0 < r.pages ∧ match r.space with
  | none => KernelRange U r
  | some t => UserRange U s t r

theorem Range.Kept.mono {U U' : Nat} {s s' : Vm} {r : Range} (h : r.Kept U s) (hU : U ≤ U')
    (hg : s.Grows U s' U') (hk : TasksKept s s') : r.Kept U' s' := by
  obtain ⟨hp, h⟩ := h
  refine ⟨hp, ?_⟩
  cases hr : r.space with
  | none =>
    rw [hr] at h
    exact ⟨h.aligned, h.low, by have := h.high; omega⟩
  | some t =>
    rw [hr] at h
    obtain ⟨q, d, hq, hd, hm⟩ := h.mapped
    have hpg := hk.pgdir t h.process
    refine ⟨by rw [hpg]; exact h.process, h.aligned, h.low, h.high,
      fun i hi => hk.bits t _ h.process (h.taken i hi), q, d, by rw [hpg]; exact hq, hg _ _ hd, ?_⟩
    intro i hi
    obtain ⟨f, hf⟩ := hm i hi
    exact ⟨f, hg _ _ hf⟩

/-- Two runs of pages overlap or one ends before the other starts. -/
theorem pages_apart (v v' n n' : Nat) (hn : 0 < n) (hn' : 0 < n') (hv : v % 4096 = 0) (hv' : v' % 4096 = 0)
    (h : ∀ i i', i < n → i' < n' → v / 4096 + i ≠ v' / 4096 + i') :
    v + n * PG_SIZE ≤ v' ∨ v' + n' * PG_SIZE ≤ v := by
  unfold PG_SIZE
  apply Classical.byContradiction
  intro hc
  by_cases hle : v / 4096 ≤ v' / 4096
  · exact h (v' / 4096 - v / 4096) 0 (by omega) hn' (by omega)
  · exact h 0 (v / 4096 - v' / 4096) hn (by omega) (by omega)

/-- Calls as the allocator's users make them: `get_a_page` is given a page-aligned address. -/
def MemOp.Proper (s : MemSys) (op : MemOp) : Prop :=
  op.Allowed s ∧ ∀ v, op = .getAPage v → v % PG_SIZE = 0

structure HistInv (U len : Nat) (s : MemSys) : Prop where
  kLen : s.vm.kernelPool.poolBitmap.btmpBytesLen = len
  next : U ≤ 8 * len
  kept : ∀ r ∈ s.hist, r.Kept U s.vm
  apart : s.hist.Pairwise Range.Apart

/-- The directory that the running process's `pgdir` names is the active one. -/
theorem SysInv.active_dir {Z : Prop} {kfree U : Nat} {s : Vm} (h : SysInv Z kfree U s)
    (hp : (s.task s.cur).pgdir ≠ NULL) (q d : Nat) (hq : (s.task s.cur).pgdir = q * 4096)
    (hd : s.Uses U (.kpage q) d) : s.dir = d := by
  obtain ⟨d', hw, hc⟩ := h.vm.userActive q hq (fun e => hp (by rw [hq, e]; rfl))
  have : d' = d := Option.some.inj (hw.symm.trans hd.2.2)
  unfold Vm.dir
  rw [hc, this, Nat.mul_div_cancel _ (by decide)]

/-- **One call extends the ranges by one that is apart from all others.** -/
theorem HistInv.step {Z : Prop} {kfree U len : Nat} {s s' : MemSys} {op : MemOp}
    (h : SysInv Z kfree U s.vm) (hi : HistInv U len s) (hop : op.Proper s) (hs : s.step op = .ok s') :
    ∃ U', SysInv Z kfree U' s'.vm ∧ HistInv U' len s' := by
  obtain ⟨U', h', hg, hk, he⟩ := MemSys.step_effect h op hop.1 s' hs
  refine ⟨U', h', ?_⟩
  have hlen : s'.vm.kernelPool.poolBitmap.btmpBytesLen = len := hk.kLen.trans hi.kLen
  cases he with
  | same next hist =>
    subst next
    exact ⟨hlen, hi.next, by rw [hist]; exact fun r hr => (hi.kept r hr).mono (Nat.le_refl _) hg hk,
      by rw [hist]; exact hi.apart⟩
  | kernel n pos next fits hist =>
    subst next
    rw [hi.kLen] at fits
    refine ⟨hlen, fits, ?_, ?_⟩
    · rw [hist]
      intro r hr
      rcases List.mem_cons.mp hr with rfl | hr
      · exact ⟨pos, ⟨by simp only; omega, by simp only; omega, by simp only; omega⟩⟩
      · exact (hi.kept r hr).mono (by omega) hg hk
    · rw [hist]
      refine List.pairwise_cons.mpr ⟨fun r hr hsp => ?_, hi.apart⟩
      obtain ⟨-, hkr⟩ := hi.kept r hr
      rw [← hsp] at hkr
      have h1 := hkr.aligned
      have h2 := hkr.high
      right
      simp only [PG_SIZE]
      omega
  | user v n next pos aligned low high process free taken mapped hist =>
    subst next
    have hv : v % 4096 = 0 := by
      rcases aligned with hv | hv
      · exact hv
      · exact hop.2 v hv
    obtain ⟨q, hq⟩ := h.vm.pgdirPage s.vm.cur
    obtain ⟨hq1, hq2⟩ := h.vm.spaces.pgHeap q ⟨s.vm.cur, process, hq⟩
    obtain ⟨d, -, hd⟩ := h.vm.spaces.heap_walk q hq1 hq2
    have hdir := h.active_dir process q d hq hd
    refine ⟨hlen, hi.next, ?_, ?_⟩
    · rw [hist]
      intro r hr
      rcases List.mem_cons.mp hr with rfl | hr
      · have hpg := hk.pgdir s.vm.cur process
        refine ⟨pos, ⟨by rw [hpg]; exact process, hv, low, high, taken, q, d, by rw [hpg]; exact hq,
          hg _ _ hd, ?_⟩⟩
        rw [← hdir]
        exact mapped
      · exact (hi.kept r hr).mono (Nat.le_refl _) hg hk
    · rw [hist]
      refine List.pairwise_cons.mpr ⟨fun r hr hsp => ?_, hi.apart⟩
      obtain ⟨hpos, hkr⟩ := hi.kept r hr
      rw [← hsp] at hkr
      refine pages_apart v r.start n r.pages pos hpos hv hkr.aligned ?_
      intro i i' hi1 hi2 e
      rcases free with hclear | ⟨rfl, hnone⟩
      · -- the page's bit was clear, and every page of the older range has its bit set
        have hset := hkr.taken i' hi2
        have hlow := hkr.low
        rw [show r.start / 4096 - 0x8048 + i' = v / 4096 - 0x8048 + i by omega, hclear i hi1] at hset
        cases hset
      · -- the page was unmapped, and every page of the older range is mapped
        obtain ⟨q', d', hq', hd', hmap⟩ := hkr.mapped
        obtain ⟨f, hf⟩ := hmap i' hi2
        have hw := hf.2.2
        rw [← h.active_dir process q' d' hq' hd', ← e, show v / 4096 + i = v / 4096 by omega, hnone] at hw
        cases hw

/-! ## The frames in use -/

/-- Use `u` is made of frame `f`: a page of the kernel half above the first megabyte, a page table of
a process, or a page of a process. -/
def Vm.InUse (s : Vm) : Use → Nat → Prop := s.Uses 0x3fb00

/-- With the kernel's tables empty at boot, what is mapped above the first megabyte is the heap. -/
theorem inUse_uses {Z : Prop} {kfree U : Nat} {s : Vm} (h : SysInv Z kfree U s) (hz : Z) (u : Use) (f : Nat)
    (hu : s.InUse u f) : s.Uses U u f := by
  cases u with
  | utable d i => exact hu
  | upage d p => exact hu
  | kpage p =>
    obtain ⟨h1, h2, hw⟩ := hu
    refine ⟨h1, ?_, hw⟩
    apply Classical.byContradiction
    intro hge
    have hc := h.vm.spaces.clean hz p (by omega) (by omega)
    rw [h.vm.spaces.walkPage_boot p (by omega) (by omega), if_neg (by omega)] at hw
    cases hw

/-- **The page allocator is sound.** -/
theorem allocator_sound (allMem : Nat) (junk : Nat → Nat → UInt8) (ram : Mem) (hz : TablesEmpty ram)
    (ops : List MemOp) (s : MemSys)
    (hr : Runs MemSys.step MemOp.Proper (bootSys allMem junk ram) ops s) :
    ((∀ r ∈ s.hist, r.start % PG_SIZE = 0 ∧ 0 < r.pages ∧ r.InRegion (poolLayout allMem).kbmLength) ∧
      s.hist.Pairwise Range.Apart) ∧
    (∀ u u' f, s.vm.InUse u f → s.vm.InUse u' f → u = u') ∧
    (∀ u f, s.vm.InUse u f → 512 ≤ f ∧ u.from s.vm.kernelPool.Taken s.vm.userPool.Taken f) := by
  have hinv : ∃ U, SysInv (TablesEmpty ram) (poolLayout allMem).kernelFreePages U s.vm ∧
      HistInv U (poolLayout allMem).kbmLength s := by
    refine Runs.invariant (fun s => ∃ U,
      SysInv (TablesEmpty ram) (poolLayout allMem).kernelFreePages U s.vm ∧
        HistInv U (poolLayout allMem).kbmLength s) ?_ ops _ s ?_ hr
    · rintro s op s' ⟨U, h, hi⟩ hop hs
      exact HistInv.step h hi hop hs
    · refine ⟨0, bootVm_inv allMem junk ram, ?_, Nat.zero_le _, ?_, ?_⟩
      · simp only [bootSys, bootVm, memPoolInit, bitmapInit_len]
      · intro r hr
        cases hr
      · exact List.Pairwise.nil
  obtain ⟨U, h, hi⟩ := hinv
  refine ⟨⟨fun r hr => ?_, hi.apart⟩, ?_, ?_⟩
  · obtain ⟨hpos, hkr⟩ := hi.kept r hr
    have hnext := hi.next
    unfold Range.InRegion
    cases hsp : r.space with
    | none =>
      rw [hsp] at hkr
      have h1 := hkr.aligned
      have h2 := hkr.low
      have h3 := hkr.high
      simp only [PG_SIZE, K_HEAP_START]
      omega
    | some t =>
      rw [hsp] at hkr
      have h1 := hkr.aligned
      have h2 := hkr.low
      have h3 := hkr.high
      simp only [PG_SIZE, USER_VADDR_START]
      omega
  · intro u u' f hu hu'
    exact h.vm.spaces.unique u u' f (inUse_uses h hz u f hu) (inUse_uses h hz u' f hu')
  · intro u f hu
    have hu' := inUse_uses h hz u f hu
    exact ⟨(h.vm.spaces.frame_bounds u f hu').1, h.vm.spaces.owned u f hu'⟩

/-- The frames in use after the first process of a 4 MB machine was made. -/
theorem allocator_sound_firstProcess : ∃ s : MemSys, (s.vm.task 1).pgdir ≠ NULL ∧
    (∀ r ∈ s.hist, r.start % PG_SIZE = 0 ∧ 0 < r.pages ∧ r.InRegion (poolLayout 0x400000).kbmLength) ∧
    ∀ u u' f, s.vm.InUse u f → s.vm.InUse u' f → u = u' := by
  obtain ⟨s, hr, -, hpg⟩ := firstProcess_runs
  have hr' : Runs MemSys.step MemOp.Proper (bootSys 0x400000 (fun _ _ => 0) fun _ _ => 0)
      [.createPageDir 1, .pageDirActivate 1] s := by
    refine Runs.reguard _ _ _ hr (fun t op hop ha => ⟨ha, fun v hv => ?_⟩)
    rw [hv] at hop
    simp at hop
  have h := allocator_sound 0x400000 (fun _ _ => 0) (fun _ _ => 0) (fun _ _ _ => rfl) _ s hr'
  exact ⟨s, hpg, h.1.1, h.2.1⟩

end MyOs
