import MyOs.Kernel.PreemptionPages
import MyOs.Theory.Run

/-!
# When page allocation is safe under preemption

`get_kernel_pages` takes no lock, and `page_table_add` takes frames of the kernel pool under the lock of the user
pool.  So nothing orders the scan-then-set of one thread on `kernel_pool` or `kernel_vaddr` and that of another.

    alloc_safe      while no thread scans one of the two with another one between its scan and its last
                    set, frames and kernel ranges are handed out once
    palloc_repeats  a tick between the scan and the set of `palloc`, and two threads get one frame

`user_pool` needs no condition: every scan-then-set on it is under its lock.  The ledgers (`FrameInv`, `VaddrInv`,
`MapInv`) say that what a thread is about to take, nobody else has or is about to take.
-/

namespace MyOs

/-! ## Calls and switches -/

/-- Which calls are made: user pages are asked for by a process, and a page by its address for an address that the
bitmap covers. -/
def AllocCall.Allowed (s : AllocSys) (t : Tid) : AllocCall → Prop
  | .getKernelPages _ => True
  | .getUserPages _ => (s.task t).pgdir ≠ NULL
  | .getAPage .PF_USER vaddr => USER_VADDR_START ≤ vaddr ∧ vaddr < 0xc0000000
  | .getAPage .PF_KERNEL vaddr => K_HEAP_START ≤ vaddr ∧
      vaddr < K_HEAP_START + 8 * s.kernelVaddr.vaddrBitmap.btmpBytesLen * PG_SIZE

instance (s : AllocSys) (t : Tid) (c : AllocCall) : Decidable (c.Allowed s t) :=
  match c with
  | .getKernelPages _ => inferInstanceAs (Decidable True)
  | .getUserPages _ => inferInstanceAs (Decidable (_ ≠ _))
  | .getAPage .PF_USER _ => inferInstanceAs (Decidable (_ ∧ _))
  | .getAPage .PF_KERNEL _ => inferInstanceAs (Decidable (_ ∧ _))

def AllocEvent.Allowed (s : AllocSys) : AllocEvent → Prop
  | .call t c => c.Allowed s t
  | .step _ => True

instance (s : AllocSys) (e : AllocEvent) : Decidable (e.Allowed s) :=
  match e with
  | .call t c => inferInstanceAs (Decidable (c.Allowed s t))
  | .step _ => inferInstanceAs (Decidable True)

/-- No thread scans `kernel_pool` or `kernel_vaddr` while another one is between its scan and its last set there. -/
def AllocEvent.Exclusive (s : AllocSys) : AllocEvent → Prop
  | .call _ _ => True
  | .step t => ∀ t' ∈ s.threads, t' ≠ t →
      ((s.pc t).scans = some .PF_KERNEL → (s.pc t').pend.map Prod.fst ≠ some .PF_KERNEL) ∧
      ((s.pc t).scansVaddr = true → (s.pc t').reserves = none)

instance (s : AllocSys) (e : AllocEvent) : Decidable (e.Exclusive s) :=
  match e with
  | .call _ _ => inferInstanceAs (Decidable True)
  | .step _ => inferInstanceAs (Decidable (∀ _ ∈ _, _))

def AllocGuard (s : AllocSys) (e : AllocEvent) : Prop := e.Allowed s ∧ e.Exclusive s

instance (s : AllocSys) (e : AllocEvent) : Decidable (AllocGuard s e) := inferInstanceAs (Decidable (_ ∧ _))

/-! ## What safe means -/

/-- No frame was returned twice by `palloc`, and no two kernel ranges overlap, neither of those that `vaddr_get`
returned nor of those that the entry points returned. -/
structure AllocSafe (s : AllocSys) : Prop where
  frames : s.frames.Nodup
  vaddrs : s.vaddrs.Pairwise fun r r' => Disjoint r.pageSet r'.pageSet
  ranges : s.ranges.Pairwise fun r r' => Disjoint r.pageSet r'.pageSet

/-- The pools as `mem_pool_init(all_mem)` lays them out, whatever has been handed out of them, with any threads and
page tables; nothing is in progress. -/
structure AllocStart (allMem : Nat) (s : AllocSys) : Prop where
  kernelPool : (s.pool .PF_KERNEL).phyAddrStart = (poolLayout allMem).kpStart ∧
    (s.pool .PF_KERNEL).poolBitmap.btmpBytesLen = (poolLayout allMem).kbmLength
  userPool : (s.pool .PF_USER).phyAddrStart = (poolLayout allMem).upStart ∧
    (s.pool .PF_USER).poolBitmap.btmpBytesLen = (poolLayout allMem).ubmLength
  kernelVaddr : s.kernelVaddr.vaddrStart = K_HEAP_START ∧
    s.kernelVaddr.vaddrBitmap.btmpBytesLen = (poolLayout allMem).kbmLength
  locks : ∀ pf, (s.pool pf).lock = lockInit
  idle : ∀ t, s.pc t = .idle
  fresh : s.frames = [] ∧ s.vaddrs = [] ∧ s.ranges = []

/-! ## Runs -/

section
variable {b : Build} {s s' : AllocSys} {t : Tid}

structure AllocInv (s : AllocSys) : Prop where
  layout : AllocLayout s
  outside : ∀ t, t ∉ s.threads → s.pc t = .idle
  locks : LockInv s
  frames : FrameInv s
  vaddrs : VaddrInv s
  ok : ∀ t, (s.pc t).Ok s t
  maps : MapInv s

theorem AllocInv.trans (h : AllocInv s) (hg : AllocEvent.Exclusive s (.step t)) (ht : AllocTrans b s t s')
    (hin : t ∈ s.threads) : AllocInv s' := by
  have hk := ht.kept
  have hpc := ht.pc_ne
  have hidle : ∀ t', t' ∉ s.threads → (s.pc t').pend = none ∧ (s.pc t').reserves = none := by
    intro t' hn
    rw [h.outside t' hn]
    exact ⟨rfl, rfl⟩
  have hframes : ∀ pf, (s.pc t).scans = some pf → ∀ t', t' ≠ t → ∀ i, (s.pc t').pend ≠ some (pf, i) := by
    intro pf hscans t' hne i hp
    cases pf with
    | PF_KERNEL =>
      by_cases hmem : t' ∈ s.threads
      · refine (hg t' hmem hne).1 hscans ?_
        rw [hp]
        rfl
      · rw [(hidle t' hmem).1] at hp
        cases hp
    | PF_USER =>
      have h1 := h.locks.held t (scans_inside hscans)
      have h2 := h.locks.held t' (pend_inside hp)
      rw [h1] at h2
      exact hne (Option.some.inj h2).symm
  have hvaddr : (s.pc t).scansVaddr = true → ∀ t', t' ≠ t → (s.pc t').reserves = none := by
    intro hscans t' hne
    by_cases hmem : t' ∈ s.threads
    · exact (hg t' hmem hne).2 hscans
    · exact (hidle t' hmem).2
  refine ⟨h.layout.kept hk, ?_, h.locks.step hpc ht.lockStep, h.frames.step h.layout hk hpc ht.frameStep hframes,
    h.vaddrs.step h.layout hpc ht.vaddrStep hvaddr, ?_, h.maps.step hpc (ht.mapStep (h.ok t))⟩
  · intro t' hn
    rw [hk.threads] at hn
    have hne : t' ≠ t := fun he => hn (he ▸ hin)
    rw [hpc t' hne]
    exact h.outside t' hn
  · intro t'
    by_cases he : t' = t
    · subst he
      exact (ht.ok (h.ok t') h.layout h.vaddrs).kept hk
    · rw [hpc t' he]
      exact (h.ok t').kept hk

/-- A call begins. -/
theorem AllocInv.call (h : AllocInv s) {c : AllocCall} (hc : c.Allowed s t) (hin : t ∈ s.threads)
    (hpc : s.pc t = .idle) : AllocInv (s.goto t (.entry c)) := by
  have hother : ∀ t', t' ≠ t → (s.goto t (.entry c)).pc t' = s.pc t' := fun t' hne => goto_pc_ne s _ hne
  have hk : AllocKept s (s.goto t (.entry c)) := (AllocKept.refl s).goto t _
  refine ⟨h.layout.kept hk, ?_, h.locks.step (b := .debug) hother (.other (fun _ => rfl) ?_),
    h.frames.step (b := .debug) h.layout hk hother (.other ⟨fun _ => rfl, rfl⟩ ?_ ?_) ?_,
    h.vaddrs.step (b := .debug) h.layout hother (.other ?_ ?_ rfl fun _ hb => hb) ?_, ?_,
    h.maps.step hother (.other ?_ rfl fun _ hp => hp)⟩
  · intro t' hn
    have hne : t' ≠ t := fun he => hn (he ▸ hin)
    rw [hother t' hne]
    exact h.outside t' hn
  · rw [goto_pc]
    intro hi
    cases hi
  · rw [hpc]
    rfl
  · rw [goto_pc]
    rfl
  · rw [hpc]
    intro pf hs
    cases hs
  · rw [hpc]
    rfl
  · rw [goto_pc]
    rfl
  · rw [hpc]
    intro hs
    cases hs
  · intro t'
    by_cases he : t' = t
    · subst he
      rw [goto_pc]
      cases c with
      | getKernelPages n => trivial
      | getUserPages n => exact hc
      | getAPage pf v =>
        cases pf with
        | PF_KERNEL => exact hc.1
        | PF_USER => trivial
    · rw [hother t' he]
      exact (h.ok t').kept hk
  · rw [goto_pc]
    exact Set.empty_subset _

theorem AllocInv.step (h : AllocInv s) (e : AllocEvent) (hg : AllocGuard s e) (hs : s.step b e = .ok s') :
    AllocInv s' := by
  cases e with
  | call t c =>
    simp only [AllocSys.step] at hs
    split at hs
    · next hin =>
      cases hs
      exact h.call hg.1 hin.1 hin.2
    · cases hs
  | step t =>
    have hin : t ∈ s.threads := by
      by_contra hn
      simp only [AllocSys.step, AllocSys.stepThread, h.outside t hn, reduceCtorEq] at hs
    exact h.trans hg.2 (allocTrans_of_step hs) hin

theorem AllocStart.inv {allMem : Nat} (h : AllocStart allMem s) : AllocInv s := by
  have hk : (poolLayout allMem).kernelFreePages < 2 ^ 15 := by
    simp only [poolLayout]
    omega
  have hlen : (poolLayout allMem).kbmLength = (poolLayout allMem).kernelFreePages / 8 := rfl
  have hup : (poolLayout allMem).upStart =
      (poolLayout allMem).kpStart + (poolLayout allMem).kernelFreePages * PG_SIZE := rfl
  have hpend : ∀ t, (s.pc t).pend = none := fun t => by rw [h.idle t]; rfl
  have hres : ∀ t, (s.pc t).reserves = none := fun t => by rw [h.idle t]; rfl
  obtain ⟨hf, hv, hr⟩ := h.fresh
  refine ⟨⟨?_, h.kernelVaddr.1, ?_⟩, fun t _ => h.idle t, ⟨?_, ?_⟩, ⟨?_, ?_, ?_⟩, ⟨?_, ?_, ?_⟩, ?_, ⟨?_, ?_, ?_⟩⟩
  · rw [h.kernelPool.1, h.kernelPool.2, h.userPool.1, hlen, hup]
    simp only [PG_SIZE]
    omega
  · rw [h.kernelVaddr.2, hlen]
    omega
  · rw [h.locks]
    exact ⟨by decide, fun hn => absurd rfl hn⟩
  · intro t hi
    rw [h.idle t] at hi
    cases hi
  · rw [hf]
    exact Ledger.nil.congr fun t => frameHold_none (hpend t)
  · rw [hf]
    intro a ha
    cases ha
  · intro t pf i hp
    rw [hpend t] at hp
    cases hp
  · rw [hv]
    exact Ledger.nil.congr fun t => vaddrHold_none (hres t)
  · rw [hv]
    intro r hr
    cases hr
  · intro t c i cnt hp
    rw [h.idle t] at hp
    cases hp
  · intro t
    rw [h.idle t]
    trivial
  · rw [hr]
    exact Ledger.nil.congr fun t => by rw [h.idle t]; rfl
  · intro t p hp
    rw [h.idle t] at hp
    exact absurd hp (Set.notMem_empty p)
  · rw [hr]
    intro r hr
    cases hr

theorem AllocInv.safe (h : AllocInv s) : AllocSafe s where
  frames := by
    have hp := List.pairwise_map.mp h.frames.ledger.given
    refine hp.imp fun {a a'} hd he => ?_
    subst he
    exact Set.disjoint_left.mp hd rfl rfl
  vaddrs := List.pairwise_map.mp h.vaddrs.ledger.given
  ranges := List.pairwise_map.mp h.maps.ledger.given

end

/-- **Page allocation under preemption.**  In every run of any threads' calls in which nobody scans `kernel_pool` or
`kernel_vaddr` while another thread is between its scan and its last set there: no two calls of `palloc` have
returned one frame, and no two kernel ranges overlap. -/
theorem alloc_safe (b : Build) (allMem : Nat) (s₀ : AllocSys) (h₀ : AllocStart allMem s₀) (es : List AllocEvent)
    (s : AllocSys) (hr : Runs (AllocSys.step b) AllocGuard s₀ es s) : AllocSafe s := by
  have hinv := Runs.invariant AllocInv (fun s e s' h hg hs => h.step e hg hs) es s₀ s h₀.inv hr
  exact hinv.safe

/-- Eight frames for the kernel and eight for processes, two kernel threads and a process. -/
def raceSys : AllocSys where
  threads := [0, 1, 2]
  pool := smallVm.pool
  kernelVaddr := smallVm.kernelVaddr
  task t := if t = 2 then { pgdir := 0xc0100000, userprogVaddr := newUserVaddr } else smallVm.task t
  pde _ _ := false
  pte _ _ := false
  pc _ := .idle
  frames := []
  vaddrs := []
  ranges := []

theorem raceSys_start : AllocStart 0x210000 raceSys where
  kernelPool := ⟨rfl, rfl⟩
  userPool := ⟨rfl, rfl⟩
  kernelVaddr := ⟨rfl, rfl⟩
  locks pf := by cases pf <;> rfl
  idle _ := rfl
  fresh := ⟨rfl, rfl, rfl⟩

/-- Three calls interleaved, the scan-then-sets on the kernel's bitmaps one after the other; the user call takes a
frame of each pool. -/
def orderedRun : List AllocEvent :=
  [.call 0 (.getKernelPages 1), .call 1 (.getKernelPages 1), .call 2 (.getUserPages 1),
    .step 0, .step 0, .step 0, .step 0, .step 1, .step 1, .step 1, .step 1, .step 2, .step 2, .step 2, .step 2,
    .step 2, .step 0, .step 2, .step 0, .step 2, .step 0, .step 2, .step 2, .step 1, .step 1, .step 0, .step 2,
    .step 1, .step 1]

theorem alloc_safe_ordered : ∃ s, Runs (AllocSys.step .debug) AllocGuard raceSys orderedRun s ∧
    s.frames.length = 4 ∧ AllocSafe s := by
  obtain ⟨s, hr, hf⟩ := Runs.exists_of_exec (AllocSys.step .debug) (fun s e => decide (AllocGuard s e))
    (fun s e hg => of_decide_eq_true hg) raceSys orderedRun (fun s => s.frames.length) (b := 4) (by decide +kernel)
  exact ⟨s, hr, hf, alloc_safe .debug 0x210000 raceSys raceSys_start orderedRun s hr⟩

/-- Two kernel threads ask for a page each; both scan the kernel pool before either sets its bit. -/
def raceRun : List AllocEvent :=
  [.call 0 (.getKernelPages 1), .call 1 (.getKernelPages 1), .step 0, .step 0, .step 0, .step 0, .step 1, .step 1,
    .step 1, .step 1, .step 0, .step 1, .step 0, .step 1, .step 0, .step 1, .step 0, .step 1]

/-- Both calls return, and the frame at 2 MB is mapped at both addresses. -/
theorem palloc_repeats : ∃ s, Runs (AllocSys.step .debug) (fun s e => e.Allowed s) raceSys raceRun s ∧
    s.pc 0 = .idle ∧ s.pc 1 = .idle ∧ s.frames = [0x200000, 0x200000] ∧ ¬ AllocSafe s := by
  obtain ⟨s, hr, hf⟩ := Runs.exists_of_exec (AllocSys.step .debug) (fun s e => decide (e.Allowed s))
    (fun s e hg => of_decide_eq_true hg) raceSys raceRun (fun s => (s.pc 0, s.pc 1, s.frames))
    (b := (.idle, .idle, [0x200000, 0x200000])) (by decide +kernel)
  simp only [Prod.mk.injEq] at hf
  obtain ⟨h0, h1, hf⟩ := hf
  refine ⟨s, hr, h0, h1, hf, fun hsafe => ?_⟩
  have := hsafe.frames
  rw [hf] at this
  exact absurd this (by decide)

end MyOs
