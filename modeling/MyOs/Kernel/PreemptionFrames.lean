import Mathlib.Data.Set.Insert
import MyOs.Kernel.Preemption
import MyOs.Theory.Ledger

/-!
# The physical pools under preemption

What the transitions leave alone, and the ledger of the frames: the frame that a thread has found and not taken
yet, and the frames that `palloc` has returned.

    FrameInv.step   kept while no two threads are between scan and set on one pool
    LockInv.step    for the user pool its lock sees to that
-/

namespace MyOs

/-! ## What the transitions leave alone -/

/-- Program counters apart, what no operation changes: the threads, where the pools lie, and who has a directory. -/
structure AllocKept (s s' : AllocSys) : Prop where
  threads : s'.threads = s.threads
  start : ∀ pf, (s'.pool pf).phyAddrStart = (s.pool pf).phyAddrStart
  len : ∀ pf, (s'.pool pf).poolBitmap.btmpBytesLen = (s.pool pf).poolBitmap.btmpBytesLen
  vaddrStart : s'.kernelVaddr.vaddrStart = s.kernelVaddr.vaddrStart
  vaddrLen : s'.kernelVaddr.vaddrBitmap.btmpBytesLen = s.kernelVaddr.vaddrBitmap.btmpBytesLen
  pgdir : ∀ t, (s'.task t).pgdir = (s.task t).pgdir

namespace AllocKept

variable {s s' s'' : AllocSys}

theorem refl (s : AllocSys) : AllocKept s s := ⟨rfl, fun _ => rfl, fun _ => rfl, rfl, rfl, fun _ => rfl⟩

theorem trans (h : AllocKept s s') (h' : AllocKept s' s'') : AllocKept s s'' where
  threads := h'.threads.trans h.threads
  start pf := (h'.start pf).trans (h.start pf)
  len pf := (h'.len pf).trans (h.len pf)
  vaddrStart := h'.vaddrStart.trans h.vaddrStart
  vaddrLen := h'.vaddrLen.trans h.vaddrLen
  pgdir t := (h'.pgdir t).trans (h.pgdir t)

theorem setLock (pf : PoolFlags) (lock : Lock) : AllocKept s (s.setLock pf lock) := by
  refine ⟨rfl, fun pf' => ?_, fun pf' => ?_, rfl, rfl, fun _ => rfl⟩
  · by_cases he : pf' = pf <;> simp [AllocSys.setLock, he]
  · by_cases he : pf' = pf <;> simp [AllocSys.setLock, he]

theorem withFrame (pf : PoolFlags) (i : Nat) : AllocKept s (s.withFrame pf i) := by
  refine ⟨rfl, fun pf' => ?_, fun pf' => ?_, rfl, rfl, fun _ => rfl⟩
  · by_cases he : pf' = pf <;> simp [AllocSys.withFrame, AllocSys.setPoolBitmap, he]
  · by_cases he : pf' = pf <;> simp [AllocSys.withFrame, AllocSys.setPoolBitmap, he]

theorem withPage (t : Tid) (pf : PoolFlags) (i : Nat) : AllocKept s (s.withPage t pf i) := by
  cases pf with
  | PF_KERNEL => exact ⟨rfl, fun _ => rfl, fun _ => rfl, rfl, rfl, fun _ => rfl⟩
  | PF_USER =>
    refine ⟨rfl, fun _ => rfl, fun _ => rfl, rfl, rfl, fun t' => ?_⟩
    by_cases he : t' = t <;> simp [AllocSys.withPage, AllocSys.setAddrBitmap, he]

/-- Program counters, page tables and what was returned do not matter. -/
theorem congr (h : AllocKept s s') (hthreads : s''.threads = s'.threads) (hpool : s''.pool = s'.pool)
    (hvaddr : s''.kernelVaddr = s'.kernelVaddr) (htask : s''.task = s'.task) : AllocKept s s'' where
  threads := hthreads.trans h.threads
  start pf := by rw [hpool]; exact h.start pf
  len pf := by rw [hpool]; exact h.len pf
  vaddrStart := by rw [hvaddr]; exact h.vaddrStart
  vaddrLen := by rw [hvaddr]; exact h.vaddrLen
  pgdir t := by rw [htask]; exact h.pgdir t

theorem goto (h : AllocKept s s') (t : Tid) (pc : AllocPc) : AllocKept s (s'.goto t pc) :=
  h.congr rfl rfl rfl rfl

theorem withVaddr (pf : PoolFlags) (v n : Nat) : AllocKept s (s.withVaddr pf v n) := by
  cases pf <;> exact (refl s).congr rfl rfl rfl rfl

theorem finish (h : AllocKept s s') (t : Tid) (c : AllocCall) (ret : Nat) : AllocKept s (s'.finish t c ret) := by
  unfold AllocSys.finish
  simp only
  split <;> exact h.congr rfl rfl rfl rfl

end AllocKept

section
variable {b : Build} {s s' : AllocSys} {t : Tid}

theorem AllocTrans.kept (h : AllocTrans b s t s') : AllocKept s s' := by
  cases h with
  | enter => exact (AllocKept.refl s).goto _ _
  | acquire => exact (AllocKept.setLock _ _).goto _ _
  | vaddrNone => exact (AllocKept.refl s).goto _ _
  | vaddrFound => exact (AllocKept.refl s).goto _ _
  | vaddrBit => exact (AllocKept.withPage _ _ _).goto _ _
  | vaddrDone => exact (AllocKept.withVaddr _ _ _).goto _ _
  | marked => exact (AllocKept.withPage _ _ _).goto _ _
  | pallocNone => exact (AllocKept.refl s).goto _ _
  | pallocFound => exact (AllocKept.refl s).goto _ _
  | pallocDone => exact (AllocKept.withFrame _ _).goto _ _
  | mapped => exact (AllocKept.refl s).congr rfl rfl rfl rfl
  | tableAbsent => exact (AllocKept.refl s).goto _ _
  | tableNone => exact (AllocKept.refl s).congr rfl rfl rfl rfl
  | tableFound => exact (AllocKept.refl s).goto _ _
  | tableDone => exact (AllocKept.withFrame _ _).congr rfl rfl rfl rfl
  | left => exact (AllocKept.refl s).finish _ _ _
  | released => exact (AllocKept.setLock _ _).finish _ _ _

theorem finish_pc (s : AllocSys) (t : Tid) (c : AllocCall) (ret : Nat) :
    (s.finish t c ret).pc = (s.goto t .idle).pc := by
  unfold AllocSys.finish
  simp only
  split <;> rfl

theorem withPage_pc (s : AllocSys) (t : Tid) (pf : PoolFlags) (i : Nat) : (s.withPage t pf i).pc = s.pc := by
  cases pf <;> rfl

theorem withVaddr_pc (s : AllocSys) (pf : PoolFlags) (v n : Nat) : (s.withVaddr pf v n).pc = s.pc := by
  cases pf <;> rfl

/-- The others stay where they are. -/
theorem AllocTrans.pc_ne (h : AllocTrans b s t s') (t' : Tid) (hne : t' ≠ t) : s'.pc t' = s.pc t' := by
  cases h with
  | vaddrBit => rw [goto_pc_ne _ _ hne, withPage_pc]
  | vaddrDone => rw [goto_pc_ne _ _ hne, withVaddr_pc]
  | marked => rw [goto_pc_ne _ _ hne, withPage_pc]
  | left => rw [finish_pc, goto_pc_ne _ _ hne]
  | released =>
    rw [finish_pc, goto_pc_ne _ _ hne]
    rfl
  | _ => exact goto_pc_ne _ _ hne

/-! ## Frames -/

/-- The bit of a pool that `palloc` found and has not set yet. -/
def AllocPc.pend : AllocPc → Option (PoolFlags × Nat)
  | .pallocSet c _ bitIdx => some (c.pf, bitIdx)
  | .tableSet _ _ bitIdx => some (.PF_KERNEL, bitIdx)
  | _ => none

/-- The pool that `palloc` scans next. -/
def AllocPc.scans : AllocPc → Option PoolFlags
  | .pallocScan c _ => some c.pf
  | .tableScan _ _ => some .PF_KERNEL
  | _ => none

theorem loopPc_pend (c : AllocCall) (l : FrameLoop) : (loopPc c l).pend = none := by
  unfold loopPc
  split <;> rfl

/-- Neither a bit of a pool nor a result of `palloc` changes. -/
structure FramesSame (s s' : AllocSys) : Prop where
  bitmap : ∀ pf, (s'.pool pf).poolBitmap = (s.pool pf).poolBitmap
  frames : s'.frames = s.frames

theorem FramesSame.refl (s : AllocSys) : FramesSame s s := ⟨fun _ => rfl, rfl⟩

theorem FramesSame.congr {s s' s'' : AllocSys} (h : FramesSame s s') (hpool : s''.pool = s'.pool)
    (hframes : s''.frames = s'.frames) : FramesSame s s'' where
  bitmap pf := by rw [hpool]; exact h.bitmap pf
  frames := hframes.trans h.frames

theorem FramesSame.setLock (s : AllocSys) (pf : PoolFlags) (lock : Lock) : FramesSame s (s.setLock pf lock) := by
  refine ⟨fun pf' => ?_, rfl⟩
  by_cases he : pf' = pf <;> simp [AllocSys.setLock, he]

theorem FramesSame.withPage (s : AllocSys) (t : Tid) (pf : PoolFlags) (i : Nat) :
    FramesSame s (s.withPage t pf i) := by
  cases pf <;> exact ⟨fun _ => rfl, rfl⟩

theorem FramesSame.withVaddr (s : AllocSys) (pf : PoolFlags) (v n : Nat) :
    FramesSame s (s.withVaddr pf v n) := by
  cases pf <;> exact ⟨fun _ => rfl, rfl⟩

theorem FramesSame.finish (h : FramesSame s s') (t : Tid) (c : AllocCall) (ret : Nat) :
    FramesSame s (s'.finish t c ret) := by
  unfold AllocSys.finish
  simp only
  split <;> exact h.congr rfl rfl

/-- A transition, as the pools see it. -/
inductive FrameStep (b : Build) (s : AllocSys) (t : Tid) (s' : AllocSys) : Prop where
  | other (hsame : FramesSame s s') (hpend : (s.pc t).pend = none) (hpend' : (s'.pc t).pend = none)
  | found (pf : PoolFlags) (i : Nat) (hsame : FramesSame s s') (hpend : (s.pc t).pend = none)
    (hscans : (s.pc t).scans = some pf) (hscan : bitmapScan b (s.pool pf).poolBitmap 1 = .ok (some i))
    (hpend' : (s'.pc t).pend = some (pf, i))
  | took (pf : PoolFlags) (i : Nat) (hpend : (s.pc t).pend = some (pf, i)) (hpend' : (s'.pc t).pend = none)
    (hframes : s'.frames = s.frameAddr pf i :: s.frames)
    (hbitmap : ∀ pf', (s'.pool pf').poolBitmap =
      if pf' = pf then (s.pool pf).poolBitmap.write i 1 else (s.pool pf').poolBitmap)

theorem withFrame_bitmap (s : AllocSys) (pf : PoolFlags) (i : Nat) (pf' : PoolFlags) :
    ((s.withFrame pf i).pool pf').poolBitmap =
      if pf' = pf then (s.pool pf).poolBitmap.write i 1 else (s.pool pf').poolBitmap := by
  by_cases he : pf' = pf <;> simp [AllocSys.withFrame, AllocSys.setPoolBitmap, he]

theorem AllocTrans.frameStep (h : AllocTrans b s t s') : FrameStep b s t s' := by
  have other : ∀ {s₀ : AllocSys} {pc₀ pc : AllocPc}, FramesSame s s₀ → s.pc t = pc₀ → pc₀.pend = none →
      pc.pend = none → FrameStep b s t (s₀.goto t pc) := by
    intro s₀ pc₀ pc hsame hpc h1 h2
    refine .other (hsame.congr rfl rfl) ?_ ?_
    · rw [hpc, h1]
    · rw [goto_pc, h2]
  have found : ∀ {pc₀ pc : AllocPc} {pf : PoolFlags} {i : Nat}, s.pc t = pc₀ → pc₀.pend = none →
      pc₀.scans = some pf → bitmapScan b (s.pool pf).poolBitmap 1 = .ok (some i) → pc.pend = some (pf, i) →
      FrameStep b s t (s.goto t pc) := by
    intro pc₀ pc pf i hpc h1 h2 hscan h3
    refine .found pf i ⟨fun _ => rfl, rfl⟩ ?_ ?_ hscan ?_
    · rw [hpc, h1]
    · rw [hpc, h2]
    · rw [goto_pc, h3]
  cases h with
  | enter hpc => exact other (.refl s) hpc rfl rfl
  | acquire hpc hlock hto =>
    refine other (.setLock s _ _) hpc rfl ?_
    rcases hto with ⟨n, -, rfl⟩ | rfl <;> rfl
  | vaddrNone hpc => exact other (.refl s) hpc rfl rfl
  | vaddrFound hpc => exact other (.refl s) hpc rfl rfl
  | vaddrBit hpc => exact other (.withPage s _ _ _) hpc rfl rfl
  | vaddrDone hpc hge hto =>
    refine other (.withVaddr s _ _ _) hpc rfl ?_
    rcases hto with rfl | rfl
    · rfl
    · exact loopPc_pend _ _
  | marked hpc => exact other (.withPage s _ _ _) hpc rfl rfl
  | pallocNone hpc => exact other (.refl s) hpc rfl rfl
  | pallocFound hpc hscan => exact found hpc rfl rfl hscan rfl
  | pallocDone hpc hto =>
    refine .took _ _ (by rw [hpc]; rfl) ?_ rfl (withFrame_bitmap s _ _)
    rw [goto_pc]
    rcases hto with rfl | rfl <;> rfl
  | mapped hpc => exact other ⟨fun _ => rfl, rfl⟩ hpc rfl (loopPc_pend _ _)
  | tableAbsent hpc => exact other (.refl s) hpc rfl rfl
  | tableNone hpc => exact other ⟨fun _ => rfl, rfl⟩ hpc rfl (loopPc_pend _ _)
  | tableFound hpc hscan => exact found hpc rfl rfl hscan rfl
  | tableDone hpc =>
    refine .took _ _ (by rw [hpc]; rfl) ?_ rfl (withFrame_bitmap s _ _)
    rw [goto_pc]
    exact loopPc_pend _ _
  | left hpc =>
    refine .other ((FramesSame.refl s).finish _ _ _) (by rw [hpc]; rfl) ?_
    rw [finish_pc, goto_pc]
    rfl
  | released hpc =>
    refine .other ((FramesSame.setLock s _ _).finish _ _ _) (by rw [hpc]; rfl) ?_
    rw [finish_pc, goto_pc]
    rfl

/-- The pools lie one after the other, the kernel's addresses at the heap. -/
structure AllocLayout (s : AllocSys) : Prop where
  apart : (s.pool .PF_KERNEL).phyAddrStart + 8 * (s.pool .PF_KERNEL).poolBitmap.btmpBytesLen * PG_SIZE ≤
    (s.pool .PF_USER).phyAddrStart
  vaddrStart : s.kernelVaddr.vaddrStart = K_HEAP_START
  vaddrLen : 8 * s.kernelVaddr.vaddrBitmap.btmpBytesLen ≤ 2 ^ 15

theorem AllocLayout.kept (h : AllocLayout s) (hk : AllocKept s s') : AllocLayout s' where
  apart := by
    rw [hk.start, hk.start, hk.len]
    exact h.apart
  vaddrStart := hk.vaddrStart.trans h.vaddrStart
  vaddrLen := by
    rw [hk.vaddrLen]
    exact h.vaddrLen

theorem AllocKept.frameAddr (hk : AllocKept s s') (pf : PoolFlags) (i : Nat) :
    s'.frameAddr pf i = s.frameAddr pf i := by
  unfold AllocSys.frameAddr
  rw [hk.start]

/-- The address of a frame says which pool and which bit it is. -/
theorem frameAddr_inj (h : AllocLayout s) {pf pf' : PoolFlags} {i i' : Nat}
    (hi : i < 8 * (s.pool pf).poolBitmap.btmpBytesLen) (hi' : i' < 8 * (s.pool pf').poolBitmap.btmpBytesLen)
    (he : s.frameAddr pf i = s.frameAddr pf' i') : pf = pf' ∧ i = i' := by
  have ha := h.apart
  unfold AllocSys.frameAddr at he
  simp only [PG_SIZE] at ha he
  cases pf <;> cases pf'
  · exact ⟨rfl, by omega⟩
  · exfalso
    omega
  · exfalso
    omega
  · exact ⟨rfl, by omega⟩

/-- The frame that thread `t` is about to take. -/
def AllocSys.frameHold (s : AllocSys) (t : Tid) : Set Nat :=
  {a | ∃ pf i, (s.pc t).pend = some (pf, i) ∧ a = s.frameAddr pf i}

structure FrameInv (s : AllocSys) : Prop where
  ledger : Ledger s.frameHold (s.frames.map fun a => {a})
  taken : ∀ a ∈ s.frames, ∃ pf i, i < 8 * (s.pool pf).poolBitmap.btmpBytesLen ∧
    a = s.frameAddr pf i ∧ (s.pool pf).poolBitmap.bit i = true
  range : ∀ t pf i, (s.pc t).pend = some (pf, i) → i < 8 * (s.pool pf).poolBitmap.btmpBytesLen

theorem frameHold_none {t : Tid} (h : (s.pc t).pend = none) : s.frameHold t = ∅ := by
  refine Set.eq_empty_iff_forall_notMem.mpr ?_
  rintro a ⟨pf, i, hp, -⟩
  rw [h] at hp
  cases hp

theorem frameHold_some {t : Tid} {pf : PoolFlags} {i : Nat} (h : (s.pc t).pend = some (pf, i)) :
    s.frameHold t = {s.frameAddr pf i} := by
  ext a
  simp only [AllocSys.frameHold, h, Set.mem_ofPred_eq, Option.some.injEq, Prod.mk.injEq,
    Set.mem_singleton_iff]
  constructor
  · rintro ⟨pf', i', ⟨rfl, rfl⟩, rfl⟩
    rfl
  · rintro rfl
    exact ⟨pf, i, ⟨rfl, rfl⟩, rfl⟩

theorem frameHold_ne (hk : AllocKept s s') (hpc : ∀ t', t' ≠ t → s'.pc t' = s.pc t') (t' : Tid)
    (hne : t' ≠ t) : s'.frameHold t' = s.frameHold t' := by
  unfold AllocSys.frameHold
  simp only [hpc t' hne, hk.frameAddr]

/-- A bit once set stays set. -/
theorem FrameStep.bit_mono (h : FrameStep b s t s') (pf : PoolFlags) (i : Nat)
    (hb : (s.pool pf).poolBitmap.bit i = true) : (s'.pool pf).poolBitmap.bit i = true := by
  cases h with
  | other hsame => rw [hsame.bitmap, hb]
  | found pf' i' hsame => rw [hsame.bitmap, hb]
  | took pf' i' hpend hpend' hframes hbitmap =>
    rw [hbitmap]
    split
    · next he =>
      subst he
      rw [Bitmap.bit_write]
      split
      · simp
      · exact hb
    · exact hb

theorem FrameInv.taken_step (h : FrameInv s) (hk : AllocKept s s') (hstep : FrameStep b s t s') :
    ∀ a ∈ s.frames, ∃ pf i, i < 8 * (s'.pool pf).poolBitmap.btmpBytesLen ∧
      a = s'.frameAddr pf i ∧ (s'.pool pf).poolBitmap.bit i = true := by
  intro a ha
  obtain ⟨pf, i, hi, rfl, hb⟩ := h.taken a ha
  exact ⟨pf, i, by rw [hk.len]; exact hi, (hk.frameAddr pf i).symm, hstep.bit_mono pf i hb⟩

theorem FrameInv.range_step (h : FrameInv s) (hk : AllocKept s s') (hpc : ∀ t', t' ≠ t → s'.pc t' = s.pc t')
    (ht : ∀ pf i, (s'.pc t).pend = some (pf, i) → i < 8 * (s.pool pf).poolBitmap.btmpBytesLen) :
    ∀ t' pf i, (s'.pc t').pend = some (pf, i) → i < 8 * (s'.pool pf).poolBitmap.btmpBytesLen := by
  intro t' pf i hp
  rw [hk.len]
  by_cases he : t' = t
  · subst he
    exact ht pf i hp
  · rw [hpc t' he] at hp
    exact h.range t' pf i hp

theorem FrameInv.step (h : FrameInv s) (hlay : AllocLayout s) (hk : AllocKept s s')
    (hpc : ∀ t', t' ≠ t → s'.pc t' = s.pc t') (hstep : FrameStep b s t s')
    (hsole : ∀ pf, (s.pc t).scans = some pf → ∀ t', t' ≠ t → ∀ i, (s.pc t').pend ≠ some (pf, i)) :
    FrameInv s' := by
  have hother := frameHold_ne hk hpc
  have htaken := h.taken_step hk hstep
  have hnone : (s'.pc t).pend = none → ∀ pf i, (s'.pc t).pend = some (pf, i) →
      i < 8 * (s.pool pf).poolBitmap.btmpBytesLen := by
    intro hn pf i hp
    rw [hn] at hp
    cases hp
  cases hstep with
  | other hsame hpend hpend' =>
    refine ⟨?_, ?_, h.range_step hk hpc (hnone hpend')⟩
    · rw [hsame.frames]
      exact h.ledger.drop t hother (frameHold_none hpend')
    · rw [hsame.frames]
      exact htaken
  | found pf i hsame hpend hscans hscan hpend' =>
    have hrun := bitmapScan_some b _ 1 i (by omega) hscan
    have hclear : (s.pool pf).poolBitmap.bit i = false := hrun.clear 0 (by omega)
    refine ⟨?_, ?_, h.range_step hk hpc ?_⟩
    · rw [hsame.frames]
      refine h.ledger.grow t hother ?_
      rw [frameHold_some hpend', hk.frameAddr]
      rintro a rfl -
      constructor
      · -- another thread on the same pool is excluded, the frames of the other pool lie elsewhere
        rintro t' hne ⟨pf', i', hp, he⟩
        obtain ⟨rfl, rfl⟩ := frameAddr_inj hlay hrun.start (h.range t' pf' i' hp) he
        exact hsole pf hscans t' hne i hp
      · intro B hB ha
        obtain ⟨a, hmem, rfl⟩ := List.mem_map.mp hB
        rw [Set.mem_singleton_iff] at ha
        obtain ⟨pf', i', hi', he, hb⟩ := h.taken a hmem
        rw [← ha] at he
        obtain ⟨rfl, rfl⟩ := frameAddr_inj hlay hrun.start hi' he
        rw [hclear] at hb
        cases hb
    · rw [hsame.frames]
      exact htaken
    · intro pf' i' hp
      rw [hpend'] at hp
      cases hp
      exact hrun.start
  | took pf i hpend hpend' hframes hbitmap =>
    have hi := h.range t pf i hpend
    refine ⟨?_, ?_, h.range_step hk hpc (hnone hpend')⟩
    · have hl := h.ledger.handOut t hother (frameHold_none hpend')
      rw [frameHold_some hpend] at hl
      rw [hframes]
      exact hl
    · intro a ha
      rw [hframes] at ha
      rcases List.mem_cons.mp ha with rfl | ha
      · refine ⟨pf, i, by rw [hk.len]; exact hi, (hk.frameAddr pf i).symm, ?_⟩
        rw [hbitmap, if_pos rfl, Bitmap.bit_write, if_pos rfl]
        rfl
      · exact htaken a ha

/-! ## The lock of the user pool -/

/-- The pool of the call, from the acquiring of its lock on. -/
def AllocPc.inside : AllocPc → Option PoolFlags
  | .idle | .entry _ => none
  | .vaddrScan c | .vaddrSet c _ _ | .mark c | .pallocScan c _ | .pallocSet c _ _ | .tableTest c _
  | .tableScan c _ | .tableSet c _ _ | .leave c _ => some c.pf

/-- Whoever holds the lock took the semaphore from 1 to 0. -/
def Lock.Exact (lock : Lock) : Prop :=
  lock.semaphore.value ≤ 1 ∧ (lock.holder ≠ none → lock.semaphore.value = 0)

structure LockInv (s : AllocSys) : Prop where
  exact : (s.pool .PF_USER).lock.Exact
  held : ∀ t, (s.pc t).inside = some .PF_USER → (s.pool .PF_USER).lock.holder = some t

theorem lockAcquire_exact {lock lock' : Lock} (hl : lock.Exact) (h : lockAcquire b t lock = .ok lock') :
    lock'.Exact ∧ lock'.holder = some t ∧ (lock.holder = none ∨ lock.holder = some t) := by
  unfold lockAcquire at h
  split at h
  · next hne =>
    obtain ⟨sema, hsema, h⟩ := (bind_eq_ok _ _ _).mp h
    obtain ⟨-, -, h⟩ := (bind_eq_ok _ _ _).mp h
    cases h
    unfold semaDown at hsema
    split at hsema
    · cases hsema
    · next hv =>
      obtain ⟨-, -, hsema⟩ := (bind_eq_ok _ _ _).mp hsema
      cases hsema
      have hle := hl.1
      refine ⟨⟨?_, fun _ => ?_⟩, rfl, ?_⟩
      · simp only
        omega
      · simp only
        omega
      · left
        by_contra hn
        exact hv (hl.2 hn)
  · next he =>
    cases h
    rw [not_not] at he
    exact ⟨hl, he, .inr he⟩

theorem lockRelease_exact {lock lock' : Lock} (hl : lock.Exact) (hh : lock.holder = some t)
    (h : lockRelease b t lock = .ok lock') : lock'.Exact := by
  have hv : lock.semaphore.value = 0 := hl.2 (by rw [hh]; simp)
  unfold lockRelease at h
  obtain ⟨-, -, h⟩ := (bind_eq_ok _ _ _).mp h
  split at h
  · cases h
    exact hl
  · obtain ⟨-, -, h⟩ := (bind_eq_ok _ _ _).mp h
    obtain ⟨sema, hsema, h⟩ := (bind_eq_ok _ _ _).mp h
    cases h
    unfold semaUp at hsema
    obtain ⟨-, -, hsema⟩ := (bind_eq_ok _ _ _).mp hsema
    obtain ⟨-, -, hsema⟩ := (bind_eq_ok _ _ _).mp hsema
    cases hsema
    refine ⟨?_, fun hn => absurd rfl hn⟩
    simp only [hv]
    omega

/-- A transition, as the locks see it. -/
inductive LockStep (b : Build) (s : AllocSys) (t : Tid) (s' : AllocSys) : Prop where
  | other (hlock : ∀ pf, (s'.pool pf).lock = (s.pool pf).lock)
    (hinside : (s'.pc t).inside = some .PF_USER → (s.pc t).inside = some .PF_USER)
  | acquired (pf : PoolFlags) (hlock : lockAcquire b t (s.pool pf).lock = .ok (s'.pool pf).lock)
    (hother : ∀ pf', pf' ≠ pf → (s'.pool pf').lock = (s.pool pf').lock) (hinside : (s'.pc t).inside = some pf)
  | released (pf : PoolFlags) (hlock : lockRelease b t (s.pool pf).lock = .ok (s'.pool pf).lock)
    (hother : ∀ pf', pf' ≠ pf → (s'.pool pf').lock = (s.pool pf').lock) (hinside : (s.pc t).inside = some pf)
    (hinside' : (s'.pc t).inside = none)

theorem loopPc_inside (c : AllocCall) (l : FrameLoop) : (loopPc c l).inside = some c.pf := by
  unfold loopPc
  split <;> rfl

theorem setLock_self (s : AllocSys) (pf : PoolFlags) (lock : Lock) :
    ((s.setLock pf lock).pool pf).lock = lock := by
  simp [AllocSys.setLock]

theorem setLock_ne (s : AllocSys) {pf pf' : PoolFlags} (lock : Lock) (h : pf' ≠ pf) :
    ((s.setLock pf lock).pool pf').lock = (s.pool pf').lock := by
  simp [AllocSys.setLock, h]

theorem withFrame_lock (s : AllocSys) (pf : PoolFlags) (i : Nat) (pf' : PoolFlags) :
    ((s.withFrame pf i).pool pf').lock = (s.pool pf').lock := by
  by_cases he : pf' = pf <;> simp [AllocSys.withFrame, AllocSys.setPoolBitmap, he]

theorem withPage_pool (s : AllocSys) (t : Tid) (pf : PoolFlags) (i : Nat) : (s.withPage t pf i).pool = s.pool := by
  cases pf <;> rfl

theorem withVaddr_pool (s : AllocSys) (pf : PoolFlags) (v n : Nat) : (s.withVaddr pf v n).pool = s.pool := by
  cases pf <;> rfl

theorem finish_pool (s : AllocSys) (t : Tid) (c : AllocCall) (ret : Nat) : (s.finish t c ret).pool = s.pool := by
  unfold AllocSys.finish
  simp only
  split <;> rfl

theorem AllocTrans.lockStep (h : AllocTrans b s t s') : LockStep b s t s' := by
  -- between acquiring and releasing a thread stays inside its call
  have stay : ∀ {s₀ : AllocSys} {pc₀ pc : AllocPc} {pf : PoolFlags},
      (∀ pf', (s₀.pool pf').lock = (s.pool pf').lock) → s.pc t = pc₀ → pc₀.inside = some pf →
      pc.inside = some pf → LockStep b s t (s₀.goto t pc) := by
    intro s₀ pc₀ pc pf hlock hpc h1 h2
    refine .other hlock fun hin => ?_
    rw [goto_pc, h2] at hin
    rw [hpc, h1, hin]
  have same : ∀ {s₀ : AllocSys}, s₀.pool = s.pool → ∀ pf, (s₀.pool pf).lock = (s.pool pf).lock := by
    intro s₀ he pf
    rw [he]
  cases h with
  | enter hpc =>
    refine .other (fun _ => rfl) fun hin => ?_
    rw [goto_pc] at hin
    cases hin
  | acquire hpc hlock hto =>
    refine .acquired _ ?_ (fun pf' hne => setLock_ne s _ hne) ?_
    · rw [hlock]
      exact congrArg Except.ok (setLock_self s _ _).symm
    · rw [goto_pc]
      rcases hto with ⟨n, -, rfl⟩ | rfl <;> rfl
  | vaddrNone hpc => exact stay (fun _ => rfl) hpc rfl rfl
  | vaddrFound hpc => exact stay (fun _ => rfl) hpc rfl rfl
  | vaddrBit hpc => exact stay (same (withPage_pool s t _ _)) hpc rfl rfl
  | vaddrDone hpc hge hto =>
    refine stay (same (withVaddr_pool s _ _ _)) hpc rfl ?_
    rcases hto with rfl | rfl
    · rfl
    · exact loopPc_inside _ _
  | marked hpc => exact stay (same (withPage_pool s t _ _)) hpc rfl rfl
  | pallocNone hpc => exact stay (fun _ => rfl) hpc rfl rfl
  | pallocFound hpc => exact stay (fun _ => rfl) hpc rfl rfl
  | pallocDone hpc hto =>
    refine stay (withFrame_lock s _ _) hpc rfl ?_
    rcases hto with rfl | rfl <;> rfl
  | mapped hpc => exact stay (fun _ => rfl) hpc rfl (loopPc_inside _ _)
  | tableAbsent hpc => exact stay (fun _ => rfl) hpc rfl rfl
  | tableNone hpc => exact stay (fun _ => rfl) hpc rfl (loopPc_inside _ _)
  | tableFound hpc => exact stay (fun _ => rfl) hpc rfl rfl
  | tableDone hpc => exact stay (withFrame_lock s _ _) hpc rfl (loopPc_inside _ _)
  | left hpc =>
    refine .other (same (finish_pool s t _ _)) fun hin => ?_
    rw [finish_pc, goto_pc] at hin
    cases hin
  | released hpc hlock =>
    refine .released _ ?_ (fun pf' hne => ?_) (by rw [hpc]; rfl) (by rw [finish_pc, goto_pc]; rfl)
    · rw [hlock, finish_pool, setLock_self]
    · rw [finish_pool, setLock_ne s _ hne]

theorem LockInv.step (h : LockInv s) (hpc : ∀ t', t' ≠ t → s'.pc t' = s.pc t') (hstep : LockStep b s t s') :
    LockInv s' := by
  cases hstep with
  | other hlock hinside =>
    refine ⟨by rw [hlock]; exact h.exact, fun t' hin => ?_⟩
    rw [hlock]
    by_cases he : t' = t
    · subst he
      exact h.held t' (hinside hin)
    · rw [hpc t' he] at hin
      exact h.held t' hin
  | acquired pf hlock hother hinside =>
    by_cases hu : pf = .PF_USER
    · subst hu
      obtain ⟨hx, hheld, hfree⟩ := lockAcquire_exact h.exact hlock
      refine ⟨hx, fun t' hin => ?_⟩
      by_cases he : t' = t
      · rw [he, hheld]
      · rw [hpc t' he] at hin
        have := h.held t' hin
        rcases hfree with hn | hn
        · rw [hn] at this
          cases this
        · rw [hn] at this
          exact absurd (Option.some.inj this).symm he
    · refine ⟨by rw [hother _ (Ne.symm hu)]; exact h.exact, fun t' hin => ?_⟩
      rw [hother _ (Ne.symm hu)]
      by_cases he : t' = t
      · rw [he, hinside] at hin
        exact absurd (Option.some.inj hin) hu
      · rw [hpc t' he] at hin
        exact h.held t' hin
  | released pf hlock hother hinside hinside' =>
    by_cases hu : pf = .PF_USER
    · subst hu
      have hheld := h.held t hinside
      refine ⟨lockRelease_exact h.exact hheld hlock, fun t' hin => ?_⟩
      by_cases he : t' = t
      · rw [he, hinside'] at hin
        cases hin
      · rw [hpc t' he] at hin
        have := h.held t' hin
        rw [hheld] at this
        exact absurd (Option.some.inj this).symm he
    · refine ⟨by rw [hother _ (Ne.symm hu)]; exact h.exact, fun t' hin => ?_⟩
      rw [hother _ (Ne.symm hu)]
      by_cases he : t' = t
      · rw [he, hinside'] at hin
        cases hin
      · rw [hpc t' he] at hin
        exact h.held t' hin

theorem scans_inside {pc : AllocPc} (h : pc.scans = some .PF_USER) : pc.inside = some .PF_USER := by
  cases pc <;> simp_all [AllocPc.scans, AllocPc.inside]

theorem pend_inside {pc : AllocPc} {i : Nat} (h : pc.pend = some (.PF_USER, i)) :
    pc.inside = some .PF_USER := by
  cases pc <;> simp_all [AllocPc.pend, AllocPc.inside]

end

end MyOs
