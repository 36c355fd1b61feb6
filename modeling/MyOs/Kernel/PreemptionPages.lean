import MyOs.Kernel.PreemptionFrames

/-!
# Kernel addresses under preemption

Two ledgers of kernel pages: those that `vaddr_get` has found and not marked yet against those it has returned, and
those that a call has mapped against those that calls have returned.  The second one needs no condition, since
`page_table_add` halts on an entry that is present.

    VaddrInv.step   kept while no two threads are between scan and set on `kernel_vaddr`
    MapInv.step     kept by every step
-/

namespace MyOs

section
variable {b : Build} {s s' : AllocSys} {t : Tid}

/-! ## Kernel addresses -/

/-- The run of kernel pages that `vaddr_get` found and has not set completely: its first bit and its length. -/
def AllocPc.reserves : AllocPc → Option (Nat × Nat)
  | .vaddrSet c bitIdxStart _ => if c.pf = .PF_KERNEL then some (bitIdxStart, c.pgCnt) else none
  | _ => none

def AllocPc.scansVaddr : AllocPc → Bool
  | .vaddrScan c => c.pf = .PF_KERNEL
  | _ => false

/-- The page of the first bit of `kernel_vaddr`. -/
def heapPage : Nat := K_HEAP_START / PG_SIZE

/-- A transition, as `kernel_vaddr` sees it. -/
inductive VaddrStep (b : Build) (s : AllocSys) (t : Tid) (s' : AllocSys) : Prop where
  | other (hres : (s.pc t).reserves = none) (hres' : (s'.pc t).reserves = none) (hvaddrs : s'.vaddrs = s.vaddrs)
    (hbits : ∀ i, s.kernelVaddr.vaddrBitmap.bit i = true → s'.kernelVaddr.vaddrBitmap.bit i = true)
  | found (c : AllocCall) (i : Nat) (hpf : c.pf = .PF_KERNEL) (hpc : s.pc t = .vaddrScan c)
    (hscan : bitmapScan b s.kernelVaddr.vaddrBitmap c.pgCnt = .ok (some i)) (hpc' : s'.pc t = .vaddrSet c i 0)
    (hvaddrs : s'.vaddrs = s.vaddrs) (hsame : s'.kernelVaddr = s.kernelVaddr)
  | set (c : AllocCall) (i cnt : Nat) (hpf : c.pf = .PF_KERNEL) (hpc : s.pc t = .vaddrSet c i cnt)
    (hlt : cnt < c.pgCnt) (hpc' : s'.pc t = .vaddrSet c i (cnt + 1)) (hvaddrs : s'.vaddrs = s.vaddrs)
    (hbitmap : s'.kernelVaddr.vaddrBitmap = s.kernelVaddr.vaddrBitmap.write (i + cnt) 1)
  | done (c : AllocCall) (i cnt : Nat) (hpf : c.pf = .PF_KERNEL) (hpc : s.pc t = .vaddrSet c i cnt)
    (hge : ¬ cnt < c.pgCnt) (hres' : (s'.pc t).reserves = none)
    (hvaddrs : s'.vaddrs = kernelRange (s.vaddrOf t .PF_KERNEL i) c.pgCnt :: s.vaddrs)
    (hsame : s'.kernelVaddr = s.kernelVaddr)

theorem loopPc_reserves (c : AllocCall) (l : FrameLoop) : (loopPc c l).reserves = none := by
  unfold loopPc
  split <;> rfl

theorem withPage_vaddrs (s : AllocSys) (t : Tid) (pf : PoolFlags) (i : Nat) :
    (s.withPage t pf i).vaddrs = s.vaddrs := by
  cases pf <;> rfl

theorem withPage_bit (s : AllocSys) (t : Tid) (pf : PoolFlags) (i j : Nat)
    (h : s.kernelVaddr.vaddrBitmap.bit j = true) :
    (s.withPage t pf i).kernelVaddr.vaddrBitmap.bit j = true := by
  cases pf with
  | PF_KERNEL =>
    show (s.kernelVaddr.vaddrBitmap.write i 1).bit j = true
    rw [Bitmap.bit_write]
    split
    · rfl
    · exact h
  | PF_USER => exact h

theorem finish_same (s : AllocSys) (t : Tid) (c : AllocCall) (ret : Nat) :
    (s.finish t c ret).vaddrs = s.vaddrs ∧ (s.finish t c ret).kernelVaddr = s.kernelVaddr := by
  unfold AllocSys.finish
  simp only
  split <;> exact ⟨rfl, rfl⟩

theorem AllocTrans.vaddrStep (h : AllocTrans b s t s') : VaddrStep b s t s' := by
  have other : ∀ {s₀ : AllocSys} {pc₀ pc : AllocPc}, s₀.vaddrs = s.vaddrs → s₀.kernelVaddr = s.kernelVaddr →
      s.pc t = pc₀ → pc₀.reserves = none → pc.reserves = none → VaddrStep b s t (s₀.goto t pc) := by
    intro s₀ pc₀ pc hvaddrs hsame hpc h1 h2
    refine .other ?_ ?_ hvaddrs fun i hb => ?_
    · rw [hpc, h1]
    · rw [goto_pc, h2]
    · show s₀.kernelVaddr.vaddrBitmap.bit i = true
      rw [hsame, hb]
  have user : ∀ {c : AllocCall} {i cnt : Nat}, c.pf = .PF_USER → (AllocPc.vaddrSet c i cnt).reserves = none := by
    intro c i cnt hpf
    rw [AllocPc.reserves, hpf]
    rfl
  cases h with
  | enter hpc => exact other rfl rfl hpc rfl rfl
  | acquire hpc hlock hto =>
    refine other rfl rfl hpc rfl ?_
    rcases hto with ⟨n, -, rfl⟩ | rfl <;> rfl
  | vaddrNone hpc => exact other rfl rfl hpc rfl rfl
  | @vaddrFound c i hpc hscan =>
    cases hpf : c.pf with
    | PF_KERNEL =>
      rw [hpf] at hscan
      exact .found c i hpf hpc hscan (goto_pc _ _ _) rfl rfl
    | PF_USER => exact other rfl rfl hpc rfl (user hpf)
  | @vaddrBit c i cnt hpc hlt =>
    cases hpf : c.pf with
    | PF_KERNEL => exact .set c i cnt hpf hpc hlt (goto_pc _ _ _) rfl rfl
    | PF_USER => exact other rfl rfl hpc (user hpf) (user hpf)
  | @vaddrDone c i cnt pc hpc hge hto =>
    have hres' : pc.reserves = none := by
      rcases hto with rfl | rfl
      · rfl
      · exact loopPc_reserves _ _
    cases hpf : c.pf with
    | PF_KERNEL => exact .done c i cnt hpf hpc hge (by rw [goto_pc]; exact hres') rfl rfl
    | PF_USER => exact other rfl rfl hpc (user hpf) hres'
  | marked hpc =>
    -- the bit of `get_a_page` is set whether or not somebody found it clear
    refine .other (by rw [hpc]; rfl) (by rw [goto_pc]; rfl) (withPage_vaddrs s t _ _) ?_
    exact fun j hb => withPage_bit s t _ _ j hb
  | pallocNone hpc => exact other rfl rfl hpc rfl rfl
  | pallocFound hpc => exact other rfl rfl hpc rfl rfl
  | pallocDone hpc hto =>
    refine other rfl rfl hpc rfl ?_
    rcases hto with rfl | rfl <;> rfl
  | mapped hpc => exact other rfl rfl hpc rfl (loopPc_reserves _ _)
  | tableAbsent hpc => exact other rfl rfl hpc rfl rfl
  | tableNone hpc => exact other rfl rfl hpc rfl (loopPc_reserves _ _)
  | tableFound hpc => exact other rfl rfl hpc rfl rfl
  | tableDone hpc => exact other rfl rfl hpc rfl (loopPc_reserves _ _)
  | left hpc =>
    refine .other (by rw [hpc]; rfl) (by rw [finish_pc, goto_pc]; rfl) (finish_same s t _ _).1 ?_
    rw [(finish_same s t _ _).2]
    exact fun _ hb => hb
  | released hpc =>
    refine .other (by rw [hpc]; rfl) (by rw [finish_pc, goto_pc]; rfl) (finish_same _ t _ _).1 ?_
    rw [(finish_same _ t _ _).2]
    exact fun _ hb => hb

/-- A bit once set stays set. -/
theorem VaddrStep.bit_mono (h : VaddrStep b s t s') (i : Nat)
    (hb : s.kernelVaddr.vaddrBitmap.bit i = true) : s'.kernelVaddr.vaddrBitmap.bit i = true := by
  cases h with
  | other hres hres' hvaddrs hbits => exact hbits i hb
  | found c i' hpf hpc hscan hpc' hvaddrs hsame => rw [hsame, hb]
  | set c i' cnt hpf hpc hlt hpc' hvaddrs hbitmap =>
    rw [hbitmap, Bitmap.bit_write]
    split
    · rfl
    · exact hb
  | done c i' cnt hpf hpc hge hres' hvaddrs hsame => rw [hsame, hb]

/-- The pages that thread `t` is about to reserve. -/
def AllocPc.vaddrHold (pc : AllocPc) : Set Nat :=
  {p | ∃ i n, pc.reserves = some (i, n) ∧ heapPage + i ≤ p ∧ p < heapPage + i + n}

/-- How far thread `t` is in the loop of `vaddr_get`: the first `cnt` bits of its run are set. -/
def VaddrProgress (s : AllocSys) (t : Tid) : Prop :=
  ∀ c i cnt, s.pc t = .vaddrSet c i cnt → c.pf = .PF_KERNEL →
    cnt ≤ c.pgCnt ∧ (0 < c.pgCnt → i < 2 ^ 15) ∧ ∀ j, j < cnt → s.kernelVaddr.vaddrBitmap.bit (i + j) = true

structure VaddrInv (s : AllocSys) : Prop where
  ledger : Ledger (fun t => (s.pc t).vaddrHold) (s.vaddrs.map Range.pageSet)
  taken : ∀ r ∈ s.vaddrs, ∀ p ∈ r.pageSet, heapPage ≤ p ∧ s.kernelVaddr.vaddrBitmap.bit (p - heapPage) = true
  progress : ∀ t, VaddrProgress s t

theorem vaddrHold_none {pc : AllocPc} (h : pc.reserves = none) : pc.vaddrHold = ∅ := by
  refine Set.eq_empty_iff_forall_notMem.mpr ?_
  rintro p ⟨i, n, hp, -⟩
  rw [h] at hp
  cases hp

theorem vaddrHold_set {c : AllocCall} (hpf : c.pf = .PF_KERNEL) (i cnt : Nat) :
    (AllocPc.vaddrSet c i cnt).vaddrHold = {p | heapPage + i ≤ p ∧ p < heapPage + i + c.pgCnt} := by
  ext p
  simp only [AllocPc.vaddrHold, AllocPc.reserves, if_pos hpf, Set.mem_ofPred_eq, Option.some.injEq,
    Prod.mk.injEq]
  constructor
  · rintro ⟨i', n, ⟨rfl, rfl⟩, hp⟩
    exact hp
  · intro hp
    exact ⟨i, c.pgCnt, ⟨rfl, rfl⟩, hp⟩

/-- The range of bits that `vaddr_get` set is the range of pages that it returns. -/
theorem vaddrOf_pageSet (hlay : AllocLayout s) (t : Tid) {i n : Nat} (hi : 0 < n → i < 2 ^ 15) :
    (kernelRange (s.vaddrOf t .PF_KERNEL i) n).pageSet = {p | heapPage + i ≤ p ∧ p < heapPage + i + n} := by
  ext p
  simp only [kernelRange, Range.pageSet, AllocSys.vaddrOf, AllocSys.addrPool, hlay.vaddrStart, heapPage,
    K_HEAP_START, PG_SIZE, Set.mem_ofPred_eq]
  rcases Nat.eq_zero_or_pos n with rfl | hn
  · omega
  · have := hi hn
    omega

theorem vaddrProgress_none (h : (s.pc t).reserves = none) : VaddrProgress s t := by
  intro c i cnt hp hpf
  rw [hp, AllocPc.reserves, if_pos hpf] at h
  cases h

/-- A step of `t` does not set back the others. -/
theorem VaddrInv.progress_step (h : VaddrInv s) (hpc : ∀ t', t' ≠ t → s'.pc t' = s.pc t')
    (hstep : VaddrStep b s t s') (ht : VaddrProgress s' t) (t' : Tid) : VaddrProgress s' t' := by
  by_cases he : t' = t
  · subst he
    exact ht
  · intro c i cnt hp hpf
    rw [hpc t' he] at hp
    obtain ⟨h1, h2, h3⟩ := h.progress t' c i cnt hp hpf
    exact ⟨h1, h2, fun j hj => hstep.bit_mono _ (h3 j hj)⟩

theorem VaddrInv.taken_step (h : VaddrInv s) (hstep : VaddrStep b s t s') : ∀ r ∈ s.vaddrs, ∀ p ∈ r.pageSet,
    heapPage ≤ p ∧ s'.kernelVaddr.vaddrBitmap.bit (p - heapPage) = true := by
  intro r hr p hp
  obtain ⟨h1, h2⟩ := h.taken r hr p hp
  exact ⟨h1, hstep.bit_mono _ h2⟩

/-- The scan found a run of clear bits: nobody has the pages. -/
theorem VaddrInv.found_new (h : VaddrInv s) {c : AllocCall} {i : Nat}
    (hscan : bitmapScan b s.kernelVaddr.vaddrBitmap c.pgCnt = .ok (some i)) {p : Nat} (h1 : heapPage + i ≤ p)
    (h2 : p < heapPage + i + c.pgCnt) : ∀ B ∈ s.vaddrs.map Range.pageSet, p ∉ B := by
  intro B hB hmem
  obtain ⟨r, hr, rfl⟩ := List.mem_map.mp hB
  have hset := (h.taken r hr p hmem).2
  have hrun := bitmapScan_some b _ c.pgCnt i (by omega) hscan
  have hclear := hrun.clear (p - heapPage - i) (by omega)
  rw [show i + (p - heapPage - i) = p - heapPage by omega, hset] at hclear
  cases hclear

theorem VaddrInv.step (h : VaddrInv s) (hlay : AllocLayout s)
    (hpc : ∀ t', t' ≠ t → s'.pc t' = s.pc t') (hstep : VaddrStep b s t s')
    (hsole : (s.pc t).scansVaddr = true → ∀ t', t' ≠ t → (s.pc t').reserves = none) : VaddrInv s' := by
  have hother : ∀ t', t' ≠ t → (s'.pc t').vaddrHold = (s.pc t').vaddrHold :=
    fun t' hne => by rw [hpc t' hne]
  have htaken := h.taken_step hstep
  have hprogress := h.progress_step hpc hstep
  have hbits := hstep.bit_mono
  cases hstep with
  | other hres hres' hvaddrs _ =>
    refine ⟨?_, ?_, hprogress (vaddrProgress_none hres')⟩
    · rw [hvaddrs]
      exact h.ledger.drop t hother (vaddrHold_none hres')
    · rw [hvaddrs]
      exact htaken
  | found c i hpf hpc₀ hscan hpc' hvaddrs hsame =>
    have hscans : (s.pc t).scansVaddr = true := by
      rw [hpc₀, AllocPc.scansVaddr, hpf]
      rfl
    refine ⟨?_, ?_, hprogress ?_⟩
    · rw [hvaddrs]
      refine h.ledger.grow t hother ?_
      simp only [hpc', vaddrHold_set hpf]
      rintro p ⟨h1, h2⟩ -
      refine ⟨?_, h.found_new hscan h1 h2⟩
      intro t' hne hmem
      rw [vaddrHold_none (hsole hscans t' hne)] at hmem
      exact hmem
    · rw [hvaddrs]
      exact htaken
    · intro c' i' cnt hp _
      rw [hpc'] at hp
      cases hp
      refine ⟨by omega, fun hn => ?_, fun j hj => absurd hj (by omega)⟩
      have hrun := bitmapScan_some b _ c.pgCnt i hn hscan
      have := hlay.vaddrLen
      have := hrun.start
      omega
  | set c i cnt hpf hpc₀ hlt hpc' hvaddrs hbitmap =>
    refine ⟨?_, ?_, hprogress ?_⟩
    · rw [hvaddrs]
      refine h.ledger.congr fun t' => ?_
      by_cases he : t' = t
      · simp only [he, hpc', hpc₀, vaddrHold_set hpf]
      · exact hother t' he
    · rw [hvaddrs]
      exact htaken
    · intro c' i' cnt' hp _
      rw [hpc'] at hp
      cases hp
      obtain ⟨-, h2, h3⟩ := h.progress t c i cnt hpc₀ hpf
      refine ⟨by omega, h2, fun j hj => ?_⟩
      rw [hbitmap, Bitmap.bit_write]
      split
      · rfl
      · exact h3 j (by omega)
  | done c i cnt hpf hpc₀ hge hres' hvaddrs hsame =>
    obtain ⟨h1, h2, h3⟩ := h.progress t c i cnt hpc₀ hpf
    have hpages := vaddrOf_pageSet hlay t h2
    refine ⟨?_, ?_, hprogress (vaddrProgress_none hres')⟩
    · have hl := h.ledger.handOut t hother (vaddrHold_none hres')
      simp only [hpc₀, vaddrHold_set hpf] at hl
      rw [hvaddrs, List.map_cons, hpages]
      exact hl
    · intro r hr
      rw [hvaddrs] at hr
      rcases List.mem_cons.mp hr with rfl | hr
      · intro p hp
        rw [hpages] at hp
        obtain ⟨hp1, hp2⟩ := hp
        have := h3 (p - heapPage - i) (by omega)
        rw [show i + (p - heapPage - i) = p - heapPage by omega] at this
        exact ⟨by omega, hbits _ this⟩
      · exact htaken r hr

/-! ## Mapped pages -/

/-- What the callers promise, as far as it matters here. -/
def AllocCall.Proper (s : AllocSys) (t : Tid) : AllocCall → Prop
  | .getKernelPages _ => True
  | .getUserPages _ => (s.task t).pgdir ≠ NULL
  | .getAPage .PF_USER _ => True
  | .getAPage .PF_KERNEL vaddr => K_HEAP_START ≤ vaddr

/-- The loop of a kernel call has mapped the pages from `vaddr_start` to `vaddr`. -/
def LoopOk (c : AllocCall) (l : FrameLoop) : Prop :=
  c.pf = .PF_KERNEL → l.vaddr + l.cnt * PG_SIZE = l.vaddrStart + c.pgCnt * PG_SIZE ∧
    (0 < l.cnt → 0xc0000000 ≤ l.vaddr)

/-- Kernel calls stay in the kernel half, user calls are those of a process: only its tables are ever created. -/
def AllocPc.Ok (s : AllocSys) (t : Tid) : AllocPc → Prop
  | .idle | .leave _ _ => True
  | .entry c | .mark c => c.Proper s t
  | .vaddrScan c | .vaddrSet c _ _ => c.pf = .PF_USER → (s.task t).pgdir ≠ NULL
  | .pallocScan c l | .pallocSet c l _ | .tableTest c l =>
    LoopOk c l ∧ 0 < l.cnt ∧ (c.pf = .PF_USER → (s.task t).pgdir ≠ NULL)
  | .tableScan c l | .tableSet c l _ => c.pf = .PF_USER ∧ s.space t (l.vaddr / PG_SIZE) = some t

theorem AllocKept.space (hk : AllocKept s s') (t : Tid) (p : Nat) : s'.space t p = s.space t p := by
  unfold AllocSys.space
  rw [hk.pgdir]

theorem AllocPc.Ok.kept (hk : AllocKept s s') {t : Tid} {pc : AllocPc} (h : pc.Ok s t) : pc.Ok s' t := by
  have hproper : ∀ c : AllocCall, c.Proper s t → c.Proper s' t := by
    intro c hc
    cases c with
    | getKernelPages n => trivial
    | getUserPages n =>
      show (s'.task t).pgdir ≠ NULL
      rw [hk.pgdir]
      exact hc
    | getAPage pf v =>
      cases pf with
      | PF_KERNEL => exact hc
      | PF_USER => trivial
  cases pc with
  | idle => trivial
  | leave c ret => trivial
  | entry c => exact hproper c h
  | mark c => exact hproper c h
  | _ =>
    simp only [AllocPc.Ok, hk.pgdir, hk.space] at h ⊢
    exact h

theorem loopPc_ok {c : AllocCall} {l : FrameLoop} (hl : LoopOk c l)
    (hu : c.pf = .PF_USER → (s.task t).pgdir ≠ NULL) : (loopPc c l).Ok s t := by
  unfold loopPc
  split
  · trivial
  · exact ⟨hl, by omega, hu⟩

theorem LoopOk.advance {c : AllocCall} {l : FrameLoop} (h : LoopOk c l) (hc : 0 < l.cnt) :
    LoopOk c l.advance := by
  intro hpf
  obtain ⟨h1, h2⟩ := h hpf
  have h3 := h2 hc
  simp only [FrameLoop.advance, PG_SIZE] at h1 ⊢
  constructor
  · omega
  · intro _
    omega

theorem space_some {p : Nat} (hpgdir : (s.task t).pgdir ≠ NULL) (hpde : s.pdePresent t p = false) :
    s.space t p = some t := by
  unfold AllocSys.pdePresent at hpde
  unfold AllocSys.space at hpde ⊢
  by_cases hp : 768 ≤ p / 1024
  · rw [if_pos (.inl hp)] at hpde
    cases hpde
  · rw [if_neg (by simp only [hp, hpgdir, or_self, not_false_iff])]

theorem space_kernel {p : Nat} (hp : 0xc0000 ≤ p) : s.space t p = none := by
  unfold AllocSys.space
  rw [if_pos (.inl (by omega))]

theorem pgdir_of_space {p : Nat} (h : s.space t p = some t) : (s.task t).pgdir ≠ NULL := by
  intro hn
  unfold AllocSys.space at h
  rw [if_pos (.inr hn)] at h
  cases h

/-- A kernel call has its pages mapped in tables that exist. -/
theorem kernel_pdePresent {c : AllocCall} {l : FrameLoop} (h : LoopOk c l) (hc : 0 < l.cnt)
    (hpde : s.pdePresent t (l.vaddr / PG_SIZE) = false) : c.pf = .PF_USER := by
  cases hpf : c.pf with
  | PF_USER => rfl
  | PF_KERNEL =>
    have hv := (h hpf).2 hc
    unfold AllocSys.pdePresent at hpde
    rw [space_kernel (by simp only [PG_SIZE]; omega)] at hpde
    cases hpde

theorem AllocTrans.ok (h : AllocTrans b s t s') (hok : (s.pc t).Ok s t) (hlay : AllocLayout s)
    (hv : VaddrInv s) : (s'.pc t).Ok s t := by
  cases h with
  | enter hpc => rw [goto_pc]; exact fun hu => by cases hu
  | @acquire c lock pc hpc hlock hto =>
    rw [goto_pc]
    rw [hpc] at hok
    rcases hto with ⟨n, rfl, rfl⟩ | rfl
    · exact fun _ => hok
    · exact hok
  | vaddrNone hpc => rw [goto_pc]; trivial
  | vaddrFound hpc =>
    rw [goto_pc]
    rw [hpc] at hok
    exact hok
  | vaddrBit hpc =>
    rw [goto_pc]
    rw [hpc] at hok
    exact hok
  | @vaddrDone c i cnt pc hpc hge hto =>
    rw [goto_pc]
    rw [hpc] at hok
    rcases hto with rfl | rfl
    · trivial
    · refine loopPc_ok ?_ hok
      intro hpf
      refine ⟨rfl, fun hn => ?_⟩
      have hi := (hv.progress t c i cnt hpc hpf).2.1 hn
      simp only [AllocSys.vaddrOf, hpf, AllocSys.addrPool, hlay.vaddrStart, K_HEAP_START, PG_SIZE]
      omega
  | @marked pf v i hpc hcaller =>
    rw [goto_pc]
    rw [hpc] at hok
    refine ⟨fun hpf => ⟨rfl, fun _ => ?_⟩, Nat.one_pos, ?_⟩
    · cases pf with
      | PF_KERNEL => exact Nat.le_trans (by decide) hok
      | PF_USER => cases hpf
    · intro hpf
      rcases hcaller with ⟨hp, -⟩ | ⟨-, hk⟩
      · exact hp
      · rw [hk] at hpf
        cases hpf
  | pallocNone hpc => rw [goto_pc]; trivial
  | pallocFound hpc =>
    rw [goto_pc]
    rw [hpc] at hok
    exact hok
  | pallocDone hpc hto =>
    rw [goto_pc]
    rw [hpc] at hok
    rcases hto with rfl | rfl
    · trivial
    · exact hok
  | mapped hpc =>
    rw [goto_pc]
    rw [hpc] at hok
    obtain ⟨hl, hc, hu⟩ := hok
    exact loopPc_ok (hl.advance hc) hu
  | tableAbsent hpc hpde =>
    rw [goto_pc]
    rw [hpc] at hok
    obtain ⟨hl, hc, hu⟩ := hok
    have hpf := kernel_pdePresent hl hc hpde
    exact ⟨hpf, space_some (hu hpf) hpde⟩
  | tableNone hpc =>
    rw [goto_pc]
    rw [hpc] at hok
    refine loopPc_ok (fun hk => ?_) fun _ => pgdir_of_space hok.2
    rw [hok.1] at hk
    cases hk
  | tableFound hpc =>
    rw [goto_pc]
    rw [hpc] at hok
    exact hok
  | tableDone hpc =>
    rw [goto_pc]
    rw [hpc] at hok
    refine loopPc_ok (fun hk => ?_) fun _ => pgdir_of_space hok.2
    rw [hok.1] at hk
    cases hk
  | left hpc => rw [finish_pc, goto_pc]; trivial
  | released hpc => rw [finish_pc, goto_pc]; trivial

/-- The pages that the kernel call of a thread has mapped. -/
def AllocPc.mapped : AllocPc → Set Nat
  | .pallocScan c l | .pallocSet c l _ | .tableTest c l | .tableScan c l | .tableSet c l _ =>
    {p | c.pf = .PF_KERNEL ∧ l.vaddrStart / PG_SIZE ≤ p ∧ p < l.vaddr / PG_SIZE}
  | .leave c ret => {p | c.pf = .PF_KERNEL ∧ ret ≠ NULL ∧ p ∈ (kernelRange ret c.pgCnt).pageSet}
  | _ => ∅

theorem kernelRange_pages (v n : Nat) :
    (kernelRange v n).pageSet = {p | v / PG_SIZE ≤ p ∧ p < v / PG_SIZE + n} := by
  ext p
  simp only [kernelRange, Range.pageSet, PG_SIZE, Set.mem_ofPred_eq]
  omega

/-- The last page mapped, the loop returns what it has mapped. -/
theorem loopPc_mapped {c : AllocCall} {l : FrameLoop} (h : LoopOk c l) (p : Nat)
    (hp : p ∈ (loopPc c l).mapped) :
    c.pf = .PF_KERNEL ∧ l.vaddrStart / PG_SIZE ≤ p ∧ p < l.vaddr / PG_SIZE := by
  unfold loopPc at hp
  split at hp
  · next hc =>
    obtain ⟨hpf, -, hmem⟩ := hp
    rw [kernelRange_pages] at hmem
    obtain ⟨h1, h2⟩ := hmem
    have he := (h hpf).1
    refine ⟨hpf, h1, ?_⟩
    simp only [hc, PG_SIZE] at he h2 ⊢
    omega
  · exact hp

theorem loopPc_user {c : AllocCall} (hpf : c.pf = .PF_USER) (l : FrameLoop) : (loopPc c l).mapped = ∅ := by
  refine Set.eq_empty_iff_forall_notMem.mpr fun p hp => ?_
  have hk : LoopOk c l := fun hk => by rw [hpf] at hk; cases hk
  have := (loopPc_mapped hk p hp).1
  rw [hpf] at this
  cases this

/-- A transition, as the shared page tables see it. -/
inductive MapStep (s : AllocSys) (t : Tid) (s' : AllocSys) : Prop where
  | other (hmapped : (s'.pc t).mapped ⊆ (s.pc t).mapped) (hranges : s'.ranges = s.ranges)
    (hpte : ∀ p, s.pte none p = true → s'.pte none p = true)
  | map (p : Nat) (hfree : s.pte none p = false) (hmapped : (s'.pc t).mapped ⊆ insert p (s.pc t).mapped)
    (hranges : s'.ranges = s.ranges) (hset : s'.pte none p = true)
    (hpte : ∀ p, s.pte none p = true → s'.pte none p = true)
  | returned (r : Range) (hr : r.pageSet = (s.pc t).mapped) (hmapped : (s'.pc t).mapped = ∅)
    (hranges : s'.ranges = r :: s.ranges) (hpte : s'.pte = s.pte)

theorem mapPage_pte (s : AllocSys) (t : Tid) (p q : Nat) (h : s.pte none q = true) :
    (s.mapPage t p).pte none q = true := by
  unfold AllocSys.mapPage
  by_cases he : none = s.space t p
  · rw [← he]
    simp only [Function.update_self, Function.update_apply]
    split
    · rfl
    · exact h
  · simp only [Function.update_of_ne he]
    exact h

theorem newTable_pte (s : AllocSys) {t : Tid} {p : Nat} (h : s.space t p = some t) :
    (s.newTable t p).pte none = s.pte none := by
  unfold AllocSys.newTable
  simp only [h]
  exact Function.update_of_ne (by simp) _ _

theorem finish_mapStep {s₀ : AllocSys} {c : AllocCall} {ret : Nat} (hpc : s.pc t = .leave c ret)
    (hranges : s₀.ranges = s.ranges) (hpte : s₀.pte = s.pte) : MapStep s t (s₀.finish t c ret) := by
  have hidle : ((s₀.finish t c ret).pc t).mapped = ∅ := by
    rw [finish_pc, goto_pc]
    rfl
  by_cases hr : c.pf = .PF_KERNEL ∧ ret ≠ NULL
  · refine .returned (kernelRange ret c.pgCnt) ?_ hidle ?_ ?_
    · rw [hpc]
      ext p
      simp only [AllocPc.mapped, hr.1, hr.2, Set.mem_ofPred_eq, true_and, not_false_iff, ne_eq]
    · unfold AllocSys.finish
      rw [if_pos hr, ← hranges]
      rfl
    · unfold AllocSys.finish
      rw [if_pos hr]
      exact hpte
  · have hfin : s₀.finish t c ret = s₀.goto t .idle := by
      unfold AllocSys.finish
      rw [if_neg hr]
    refine .other ?_ ?_ ?_
    · rw [hidle]
      exact Set.empty_subset _
    · rw [hfin]
      exact hranges
    · rw [hfin]
      intro p hp
      show s₀.pte none p = true
      rw [hpte, hp]

theorem AllocTrans.mapStep (h : AllocTrans b s t s') (hok : (s.pc t).Ok s t) : MapStep s t s' := by
  have quiet : ∀ pc : AllocPc, pc.mapped ⊆ (s.pc t).mapped → MapStep s t (s.goto t pc) := by
    intro pc hsub
    refine .other ?_ rfl fun _ hp => hp
    rw [goto_pc]
    exact hsub
  cases h with
  | enter hpc => exact quiet _ (Set.empty_subset _)
  | acquire hpc hlock hto =>
    refine .other ?_ rfl fun _ hp => hp
    rw [goto_pc]
    rcases hto with ⟨n, -, rfl⟩ | rfl <;> exact Set.empty_subset _
  | vaddrNone hpc => exact quiet _ fun p hp => absurd rfl hp.2.1
  | vaddrFound hpc => exact quiet _ (Set.empty_subset _)
  | @vaddrBit c i cnt hpc hlt =>
    refine .other ?_ ?_ ?_
    · rw [goto_pc]
      exact Set.empty_subset _
    · cases hpf : c.pf <;> rfl
    · cases hpf : c.pf <;> exact fun _ hp => hp
  | @vaddrDone c i cnt pc hpc hge hto =>
    refine .other ?_ ?_ ?_
    · rw [goto_pc]
      intro p hp
      exfalso
      rcases hto with rfl | rfl
      · exact absurd rfl hp.2.1
      · unfold loopPc at hp
        split at hp
        · next hc =>
          have h2 := hp.2.2
          simp only at hc
          rw [kernelRange_pages, hc] at h2
          have := h2.1
          have := h2.2
          omega
        · have := hp.2.1
          have := hp.2.2
          simp only at *
          omega
    · cases hpf : c.pf <;> rfl
    · cases hpf : c.pf <;> exact fun _ hp => hp
  | @marked pf v i hpc hcaller =>
    refine .other ?_ ?_ ?_
    · rw [goto_pc]
      intro p hp
      have := hp.2.1
      have := hp.2.2
      simp only at *
      omega
    · cases pf <;> rfl
    · cases pf <;> exact fun _ hp => hp
  | pallocNone hpc => exact quiet _ fun p hp => absurd rfl hp.2.1
  | pallocFound hpc => exact quiet _ (by rw [hpc]; exact Set.Subset.refl _)
  | pallocDone hpc hto =>
    refine .other ?_ rfl fun _ hp => hp
    rw [goto_pc]
    rcases hto with rfl | rfl
    · exact fun p hp => absurd rfl hp.2.1
    · rw [hpc]
      exact Set.Subset.refl _
  | @mapped c l hpc hpte =>
    rw [hpc] at hok
    obtain ⟨hl, hc, hu⟩ := hok
    cases hpf : c.pf with
    | PF_KERNEL =>
      have hspace : s.space t (l.vaddr / PG_SIZE) = none := by
        have := (hl hpf).2 hc
        exact space_kernel (by simp only [PG_SIZE]; omega)
      rw [hspace] at hpte
      refine .map (l.vaddr / PG_SIZE) hpte ?_ rfl ?_ (mapPage_pte s t _)
      · rw [goto_pc, hpc]
        intro p hp
        obtain ⟨-, h1, h2⟩ := loopPc_mapped (hl.advance hc) p hp
        simp only [FrameLoop.advance, PG_SIZE] at h1 h2
        by_cases he : p = l.vaddr / PG_SIZE
        · exact .inl he
        · refine .inr ⟨hpf, h1, ?_⟩
          simp only [PG_SIZE] at he ⊢
          omega
      · show (s.mapPage t (l.vaddr / PG_SIZE)).pte none (l.vaddr / PG_SIZE) = true
        unfold AllocSys.mapPage
        simp only [hspace, Function.update_self]
    | PF_USER =>
      refine .other ?_ rfl (mapPage_pte s t _)
      rw [goto_pc, loopPc_user hpf]
      exact Set.empty_subset _
  | tableAbsent hpc => exact quiet _ (by rw [hpc]; exact Set.Subset.refl _)
  | @tableNone c l hpc =>
    rw [hpc] at hok
    refine .other ?_ rfl fun p hp => ?_
    · rw [goto_pc, loopPc_user hok.1]
      exact Set.empty_subset _
    · show (s.newTable t (l.vaddr / PG_SIZE)).pte none p = true
      rw [newTable_pte s hok.2, hp]
  | tableFound hpc => exact quiet _ (by rw [hpc]; exact Set.Subset.refl _)
  | @tableDone c l i hpc =>
    rw [hpc] at hok
    refine .other ?_ rfl fun p hp => ?_
    · rw [goto_pc, loopPc_user hok.1]
      exact Set.empty_subset _
    · show ((s.withFrame .PF_KERNEL i).newTable t (l.vaddr / PG_SIZE)).pte none p = true
      rw [newTable_pte (s.withFrame .PF_KERNEL i) hok.2]
      exact hp
  | left hpc => exact finish_mapStep hpc rfl rfl
  | released hpc => exact finish_mapStep hpc rfl rfl

structure MapInv (s : AllocSys) : Prop where
  ledger : Ledger (fun t => (s.pc t).mapped) (s.ranges.map Range.pageSet)
  held : ∀ t, ∀ p ∈ (s.pc t).mapped, s.pte none p = true
  given : ∀ r ∈ s.ranges, ∀ p ∈ r.pageSet, s.pte none p = true

theorem MapInv.step (h : MapInv s) (hpc : ∀ t', t' ≠ t → s'.pc t' = s.pc t') (hstep : MapStep s t s') :
    MapInv s' := by
  have hother : ∀ t', t' ≠ t → (s'.pc t').mapped = (s.pc t').mapped := fun t' hne => by rw [hpc t' hne]
  cases hstep with
  | other hmapped hranges hpte =>
    refine ⟨?_, fun t' p hp => ?_, fun r hr p hp => ?_⟩
    · rw [hranges]
      exact h.ledger.grow t hother fun p hp hn => absurd (hmapped hp) hn
    · refine hpte p (h.held t' p ?_)
      by_cases he : t' = t
      · subst he
        exact hmapped hp
      · rw [hother t' he] at hp
        exact hp
    · rw [hranges] at hr
      exact hpte p (h.given r hr p hp)
  | map q hfree hmapped hranges hset hpte =>
    refine ⟨?_, fun t' p hp => ?_, fun r hr p hp => ?_⟩
    · rw [hranges]
      refine h.ledger.grow t hother fun p hp hn => ?_
      -- the entry of the new page was absent, those of all others are present
      obtain rfl : p = q := (hmapped hp).resolve_right hn
      constructor
      · intro t' _ hp'
        have := h.held t' p hp'
        rw [hfree] at this
        cases this
      · intro B hB hp'
        obtain ⟨r, hr, rfl⟩ := List.mem_map.mp hB
        have := h.given r hr p hp'
        rw [hfree] at this
        cases this
    · by_cases he : t' = t
      · subst he
        rcases hmapped hp with rfl | hp
        · exact hset
        · exact hpte p (h.held t' p hp)
      · rw [hother t' he] at hp
        exact hpte p (h.held t' p hp)
    · rw [hranges] at hr
      exact hpte p (h.given r hr p hp)
  | returned r hr hmapped hranges hpte =>
    refine ⟨?_, fun t' p hp => ?_, fun r' hr' p hp => ?_⟩
    · have hl := h.ledger.handOut t hother hmapped
      rw [hranges, List.map_cons, hr]
      exact hl
    · rw [hpte]
      by_cases he : t' = t
      · rw [he, hmapped] at hp
        exact absurd hp (Set.notMem_empty p)
      · rw [hother t' he] at hp
        exact h.held t' p hp
    · rw [hpte]
      rw [hranges] at hr'
      rcases List.mem_cons.mp hr' with rfl | hr'
      · rw [hr] at hp
        exact h.held t p hp
      · exact h.given r' hr' p hp

end

end MyOs
