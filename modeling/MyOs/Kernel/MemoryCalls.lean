import MyOs.Kernel.MemoryInv

/-!
# One call of the allocator

What each function of `memory.c` does to a state with the invariant `VmInv`, for calls that return in a
debug build.

    mallocLoop_kernel      maps the next heap pages
    mallocLoop_user        maps pages of the running process
    memsetZero_pages       writes no directory and no table
    getKernelPages_debug   the next heap pages, zeroed
    getUserPages_debug     a range of the running process, mapped and zeroed
    getAPage_debug         one page of the running process
-/

namespace MyOs

open Paging

/-- What a call does: the invariant holds afterwards, and everything in use stays in use. -/
structure Kept (Z : Prop) (kfree U : Nat) (s : Vm) (U' : Nat) (s' : Vm) : Prop where
  inv : VmInv Z U' kfree s'
  frozen : Frozen s s'
  grows : s.Grows U s' U'

theorem Kept.trans {Z : Prop} {kfree U1 U2 U3 : Nat} {s1 s2 s3 : Vm} (h : Kept Z kfree U1 s1 U2 s2)
    (h' : Kept Z kfree U2 s2 U3 s3) : Kept Z kfree U1 s1 U3 s3 :=
  ⟨h'.inv, h.frozen.trans h'.frozen, h.grows.trans h'.grows⟩

theorem Kept.refl {Z : Prop} {kfree U : Nat} {s : Vm} (h : VmInv Z U kfree s) : Kept Z kfree U s U s :=
  ⟨h, Frozen.refl s, fun _ _ hu => hu⟩

theorem Frozen.dir {s s' : Vm} (h : Frozen s s') : s'.dir = s.dir := by
  unfold Vm.dir
  rw [h.cr3]

theorem Frozen.dirPage {s s' : Vm} (h : Frozen s s') : s'.DirPage = s.DirPage := by
  funext p
  simp only [Vm.DirPage, h.task]

/-- A directory stays a directory while the pages in use stay in use. -/
theorem Kept.isDir {Z : Prop} {kfree U U' : Nat} {s s' : Vm} (h : VmInv Z U kfree s)
    (hk : Kept Z kfree U s U' s') (d : Nat) (hd : IsDir s.mem s.DirPage d) :
    IsDir s'.mem s'.DirPage d := by
  obtain ⟨p, hp, hu⟩ := h.spaces.dir_uses d hd
  have := hk.grows _ _ hu
  refine ⟨p, ?_, this.2.2⟩
  rw [hk.frozen.dirPage]
  exact hp

theorem entry_frame (f : Nat) : (f * 4096 + 7) / 4096 = f := by omega

theorem entry_present (f : Nat) : (f * 4096 + 7) % 2 = 1 := by omega

section
variable {Z : Prop} {U kfree : Nat} {s : Vm}

/-! ## palloc and page_table_add -/

/-- A frame from the kernel pool: nothing uses it, and its bit is set now. -/
theorem pallocFrom_kernel (h : VmInv Z U kfree s) (a : Nat) (s' : Vm)
    (hp : pallocFrom .debug s .PF_KERNEL = .ok (a, s')) :
    ∃ f, a = f * 4096 ∧ f ≠ 0 ∧ Kept Z kfree U s U s' ∧
      s'.kernelPool.taken = s.kernelPool.taken + 1 ∧ s'.kernelPool.Taken f ∧ ∀ u, ¬ s'.Uses U u f := by
  unfold pallocFrom at hp
  obtain ⟨⟨a', pool⟩, hpal, hp⟩ := (bind_eq_ok _ _ _).mp hp
  obtain ⟨i, hi, hc, rfl, rfl⟩ := palloc_debug _ _ _ hpal
  simp only [pure_eq_ok, Except.ok.injEq, Prod.mk.injEq] at hp
  obtain ⟨rfl, rfl⟩ := hp
  obtain ⟨hv, hfz, htk, hT, hfree⟩ := h.takeKernel i hi hc _ rfl
  refine ⟨512 + i, ?_, by omega, ⟨hv, hfz, fun u f hu => hu⟩, htk, hT, hfree⟩
  rw [h.kStart]
  omega

/-- A frame from the user pool. -/
theorem pallocFrom_user (h : VmInv Z U kfree s) (a : Nat) (s' : Vm)
    (hp : pallocFrom .debug s .PF_USER = .ok (a, s')) :
    ∃ f, a = f * 4096 ∧ f ≠ 0 ∧ Kept Z kfree U s U s' ∧ s'.userPool.Taken f ∧
      ∀ u, ¬ s'.Uses U u f := by
  unfold pallocFrom at hp
  obtain ⟨⟨a', pool⟩, hpal, hp⟩ := (bind_eq_ok _ _ _).mp hp
  obtain ⟨i, hi, hc, rfl, rfl⟩ := palloc_debug _ _ _ hpal
  simp only [pure_eq_ok, Except.ok.injEq, Prod.mk.injEq] at hp
  obtain ⟨rfl, rfl⟩ := hp
  obtain ⟨hv, hfz, hT, hfree⟩ := h.takeUser i hi hc _ rfl
  refine ⟨512 + kfree + i, ?_, by omega, ⟨hv, hfz, fun u f hu => hu⟩, hT, hfree⟩
  rw [h.uStart]
  omega

/-- `page_table_add` for the next heap page: the kernel's directory entries are all present, so only the
entry of the page is written. -/
theorem pageTableAdd_heap (h : VmInv Z U kfree s) (f : Nat) (s' : Vm) (hK : s.kernelPool.Taken f)
    (hfree : ∀ u, ¬ s.Uses U u f) (hb : 0xc0100 + U + 1 ≤ 0xffc00)
    (hp : pageTableAdd .debug s ((0xc0100 + U) * 4096) (f * 4096) = .ok s') :
    Kept Z kfree U s (U + 1) s' ∧ s'.kernelPool = s.kernelPool := by
  have hpg : (0xc0100 + U) * 4096 / 4096 = 0xc0100 + U := by omega
  have hadd := pageTableAdd_debug s s' _ f 512 h.selfMapped (by omega) h.kStart hp
  rw [hpg] at hadd
  have hpde := h.dir_kernel ((0xc0100 + U) / 1024) (by omega) (by omega)
  rcases hadd with ⟨-, -, rfl⟩ | ⟨habs, -⟩
  · rw [h.table_kernel _ (by omega) (by omega)]
    obtain ⟨hsp, hg⟩ := h.spaces.addHeap f hfree hK hb rfl
    exact ⟨⟨h.ofMem hsp hg, Frozen.ofMem s _, hg⟩, rfl⟩
  · rw [hpde] at habs
    omega

/-- Mapping a page of the running process under a table that is there. -/
theorem addPage_active (h : VmInv Z U kfree s) (hd : IsDir s.mem s.DirPage s.dir) (p f : Nat)
    (hp : p < 0xc0000) (hpres : s.mem s.dir (p / 1024) % 2 = 1)
    (hslot : s.mem (table s.mem s.dir p) (p % 1024) % 2 = 0) (hW : s.userPool.Taken f)
    (hfree : ∀ u, ¬ s.Uses U u f) (s' : Vm)
    (hs' : s' = { s with mem := s.mem.set (table s.mem s.dir p) (p % 1024) (f * 4096 + 7) }) :
    Kept Z kfree U s U s' ∧ s'.Uses U (.upage s.dir p) f := by
  obtain ⟨hsp, hg⟩ := h.spaces.addPage s.dir p f hd hp hpres hfree hslot hW rfl
  have hut : s.Uses U (.utable s.dir (p / 1024)) (table s.mem s.dir p) := Spaces.uses_table hd hp hpres
  -- the table is not the directory, so the directory's entry stands
  have hne : s.dir ≠ table s.mem s.dir p := by
    intro e
    obtain ⟨q, -, hu⟩ := h.spaces.dir_uses s.dir hd
    rw [← e] at hut
    have := h.spaces.unique _ _ _ hu hut
    cases this
  have hdir := Mem.set_frame_ne s.mem (table s.mem s.dir p) (p % 1024) (f * 4096 + 7) s.dir hne
  have hword := Mem.set_same s.mem (table s.mem s.dir p) (p % 1024) (f * 4096 + 7)
  generalize s.mem.set (table s.mem s.dir p) (p % 1024) (f * 4096 + 7) = mem' at *
  subst hs'
  have hk : Kept Z kfree U s U { s with mem := mem' } := ⟨h.ofMem hsp hg, Frozen.ofMem s _, hg⟩
  refine ⟨hk, hk.isDir h s.dir hd, hp, ?_⟩
  refine (walkPage_eq_some_iff _ _ _ _).mpr ⟨?_, ?_, ?_⟩
  · simp only [hdir]
    exact hpres
  · simp only [table_of_frame s.mem mem' _ _ hdir, hword]
    omega
  · simp only [table_of_frame s.mem mem' _ _ hdir, hword]
    omega

/-- `page_table_add` for a page of the running process.  The page after the last one, `0xc0000000`, is
the kernel's first page and already mapped, so the call does not return for it. -/
theorem pageTableAdd_user (h : VmInv Z U kfree s) (hd : IsDir s.mem s.DirPage s.dir) (v p f : Nat)
    (hpg : v / 4096 = p) (h1 : 0x8000 ≤ p) (h2 : p ≤ 0xc0000) (hW : s.userPool.Taken f)
    (hfree : ∀ u, ¬ s.Uses U u f) (s' : Vm) (hp : pageTableAdd .debug s v (f * 4096) = .ok s') :
    p < 0xc0000 ∧ walkPage s.mem s.dir p = none ∧ Kept Z kfree U s U s' ∧
      s'.Uses U (.upage s.dir p) f := by
  have hadd := pageTableAdd_debug s s' _ f 512 h.selfMapped (by omega) h.kStart hp
  rw [hpg] at hadd
  have hlt : p < 0xc0000 := by
    apply Classical.byContradiction
    intro hge
    have e : p = 0xc0000 := by omega
    subst e
    have hpde := h.dir_kernel 768 (by decide) (by decide)
    rcases hadd with ⟨-, hslot, -⟩ | ⟨habs, -⟩
    · rw [h.table_kernel 0xc0000 (by decide) (by decide)] at hslot
      have := h.spaces.lowTable 0 (by decide)
      simp only [show 0xc0000 / 1024 - 511 = 257 from rfl, show 0xc0000 % 1024 = 0 from rfl] at hslot
      omega
    · simp only [show 0xc0000 / 1024 = 768 from rfl] at habs
      omega
  refine ⟨hlt, ?_⟩
  rcases hadd with ⟨hpres, hslot, hs'⟩ | ⟨habs, i, hi, hc, hs'⟩
  · refine ⟨?_, addPage_active h hd p f hlt hpres hslot hW hfree s' hs'⟩
    unfold walkPage
    rw [if_pos hpres, if_neg (by omega)]
  · -- a new table on frame 512 + i
    refine ⟨by unfold walkPage; rw [if_neg (by omega)], ?_⟩
    obtain ⟨hv, hfz, -, hT, hnew⟩ := h.takeKernel i hi hc _ rfl
    obtain ⟨q, -, huq⟩ := h.spaces.dir_uses s.dir hd
    have hgd : 512 + i ≠ s.dir := fun e => hnew _ (e ▸ huq)
    specialize hs' hgd
    obtain ⟨hsp, hg, huse⟩ := hv.spaces.addTable s.dir (p / 1024) (512 + i) hd (by omega) (by omega)
      habs hnew hT rfl
    have hkept := Kept.mk (hv.ofMem hsp hg) (hfz.trans (Frozen.ofMem _ _)) hg
    generalize hs1 : ({ s with
      kernelPool := { s.kernelPool with poolBitmap := s.kernelPool.poolBitmap.write i 1 }
      mem := (s.mem.set s.dir (p / 1024) ((512 + i) * 4096 + 7)).setRange (512 + i) 0 1024
        fun _ => 0 } : Vm) = s1 at hkept
    have hs1m : s1.mem = (s.mem.set s.dir (p / 1024) ((512 + i) * 4096 + 7)).setRange (512 + i) 0 1024
        fun _ => 0 := by rw [← hs1]
    have hs1d : s1.dir = s.dir := hkept.frozen.dir
    have hpde1 : s1.mem s1.dir (p / 1024) = (512 + i) * 4096 + 7 := by
      rw [hs1m, hs1d, Mem.setRange_frame_ne _ _ _ _ _ _ hgd.symm, Mem.set_same]
    have htab1 : table s1.mem s1.dir p = 512 + i := by
      unfold table
      rw [hpde1, entry_frame]
    have hfree1 : ∀ u, ¬ s1.Uses U u f := by
      intro u hu
      have hu' : MyOs.Uses s1.mem s1.DirPage U u f := hu
      rw [hs1m, hkept.frozen.dirPage] at hu'
      rcases huse u f hu' with ho | ⟨-, rfl⟩
      · exact hfree u ho
      · exact hv.spaces.disjoint _ hT hW
    have hadd := addPage_active hkept.inv (by rw [hs1d]; exact hkept.isDir h _ hd) p f hlt
      (by rw [hpde1, entry_present])
      (by rw [htab1, hs1m, Mem.setRange_same _ _ _ _ _ _ (by omega) (by omega)])
      (by rw [← hs1]; exact hW) hfree1 s' (by rw [hs', htab1, hs1m, ← hs1])
    rw [hs1d] at hadd
    exact ⟨hkept.trans hadd.1, hadd.2⟩

/-! ## The frame loop of malloc_page -/

/-- **The kernel's loop** maps the next `n` heap pages; every page costs the pool one frame, so the
pages stay inside the kernel window. -/
theorem mallocLoop_kernel (v : Nat) : ∀ (n U : Nat) (s s' : Vm) (r : Nat), VmInv Z U kfree s →
    U ≤ s.kernelPool.taken →
    mallocLoop .debug .PF_KERNEL v n ((0xc0100 + U) * 4096) s = .ok (r, s') →
    r = v ∧ Kept Z kfree U s (U + n) s' ∧ s'.kernelPool.taken = s.kernelPool.taken + n := by
  intro n
  induction n with
  | zero =>
    intro U s s' r h _ hl
    unfold mallocLoop at hl
    simp only [pure_eq_ok, Except.ok.injEq, Prod.mk.injEq] at hl
    obtain ⟨rfl, rfl⟩ := hl
    exact ⟨rfl, Kept.refl h, rfl⟩
  | succ n ih =>
    intro U s s' r h hU hl
    unfold mallocLoop at hl
    obtain ⟨⟨a, s1⟩, hpal, hl⟩ := (bind_eq_ok _ _ _).mp hl
    obtain ⟨f, rfl, hf0, hk1, ht1, hT, hfree⟩ := pallocFrom_kernel h a s1 hpal
    dsimp only at hl
    rw [if_neg (show f * 4096 ≠ NULL by unfold NULL; omega)] at hl
    obtain ⟨s2, hadd, hl⟩ := (bind_eq_ok _ _ _).mp hl
    have hcap : s1.kernelPool.taken ≤ 8 * s1.kernelPool.poolBitmap.btmpBytesLen :=
      Bitmap.count_le _ _
    have hlen := hk1.inv.kLen
    have hkf := hk1.inv.kfreeLt
    obtain ⟨hk2, hp2⟩ := pageTableAdd_heap hk1.inv f s2 hT hfree (by omega) hadd
    rw [show (0xc0100 + U) * 4096 + PG_SIZE = (0xc0100 + (U + 1)) * 4096 by unfold PG_SIZE; omega] at hl
    obtain ⟨hr, hk3, ht3⟩ := ih (U + 1) s2 s' r hk2.inv (by rw [hp2]; omega) hl
    refine ⟨hr, ?_, by rw [ht3, hp2]; omega⟩
    rw [show U + (n + 1) = U + 1 + n by omega]
    exact (hk1.trans hk2).trans hk3

/-- **The loop for a process** maps the pages of the range. -/
theorem mallocLoop_user (v : Nat) : ∀ (n p : Nat) (s s' : Vm) (r : Nat), VmInv Z U kfree s →
    IsDir s.mem s.DirPage s.dir → 0x8000 ≤ p → p + n ≤ 0xc0001 →
    mallocLoop .debug .PF_USER v n (p * 4096) s = .ok (r, s') →
    r = v ∧ Kept Z kfree U s U s' ∧ (0 < n → p + n ≤ 0xc0000) ∧
      ∀ i, i < n → ∃ f, s'.Uses U (.upage s.dir (p + i)) f := by
  intro n
  induction n with
  | zero =>
    intro p s s' r h _ _ _ hl
    unfold mallocLoop at hl
    simp only [pure_eq_ok, Except.ok.injEq, Prod.mk.injEq] at hl
    obtain ⟨rfl, rfl⟩ := hl
    exact ⟨rfl, Kept.refl h, fun h0 => absurd h0 (by omega), fun i hi => absurd hi (by omega)⟩
  | succ n ih =>
    intro p s s' r h hd h1 h2 hl
    unfold mallocLoop at hl
    obtain ⟨⟨a, s1⟩, hpal, hl⟩ := (bind_eq_ok _ _ _).mp hl
    obtain ⟨f, rfl, hf0, hk1, hT, hfree⟩ := pallocFrom_user h a s1 hpal
    dsimp only at hl
    rw [if_neg (show f * 4096 ≠ NULL by unfold NULL; omega)] at hl
    obtain ⟨s2, hadd, hl⟩ := (bind_eq_ok _ _ _).mp hl
    have hd1 : IsDir s1.mem s1.DirPage s1.dir := by
      rw [hk1.frozen.dir]
      exact hk1.isDir h _ hd
    obtain ⟨hlt, -, hk2, hu2⟩ := pageTableAdd_user hk1.inv hd1 (p * 4096) p f (by omega) h1 (by omega)
      hT hfree s2 hadd
    have hk12 := hk1.trans hk2
    rw [show p * 4096 + PG_SIZE = (p + 1) * 4096 by unfold PG_SIZE; omega] at hl
    obtain ⟨hr, hk3, hend, hmap⟩ := ih (p + 1) s2 s' r hk12.inv
      (by rw [hk12.frozen.dir]; exact hk12.isDir h _ hd) (by omega) (by omega) hl
    rw [hk12.frozen.dir] at hmap
    rw [hk1.frozen.dir] at hu2
    refine ⟨hr, hk12.trans hk3, fun _ => ?_, fun i hi => ?_⟩
    · rcases Nat.eq_zero_or_pos n with h0 | h0
      · omega
      · have := hend h0
        omega
    · cases i with
      | zero => exact ⟨f, hk3.grows _ _ hu2⟩
      | succ i =>
        obtain ⟨g, hg⟩ := hmap i (by omega)
        exact ⟨g, by rw [show p + (i + 1) = p + 1 + i by omega]; exact hg⟩

/-! ## memset -/

/-- Frame `g` holds data: it is no page directory and no page table. -/
structure Vm.Data (s : Vm) (U g : Nat) : Prop where
  high : 512 ≤ g
  notDir : ¬ IsDir s.mem s.DirPage g
  notTable : ∀ d i, ¬ s.Uses U (.utable d i) g

theorem data_heap (h : VmInv Z U kfree s) (p f : Nat) (hu : s.Uses U (.kpage p) f) (hp : ¬ s.DirPage p) :
    s.Data U f where
  high := (h.spaces.frame_bounds _ _ hu).1
  notDir hd := by
    obtain ⟨q, hq, hu'⟩ := h.spaces.dir_uses f hd
    have := h.spaces.unique _ _ _ hu hu'
    simp only [Use.kpage.injEq] at this
    exact hp (this ▸ hq)
  notTable d i ht := by
    have := h.spaces.unique _ _ _ hu ht
    cases this

theorem data_upage (h : VmInv Z U kfree s) (d p f : Nat) (hu : s.Uses U (.upage d p) f) : s.Data U f where
  high := (h.spaces.frame_bounds _ _ hu).1
  notDir hd := by
    obtain ⟨q, hq, hu'⟩ := h.spaces.dir_uses f hd
    have := h.spaces.unique _ _ _ hu hu'
    cases this
  notTable d' i ht := by
    have := h.spaces.unique _ _ _ hu ht
    cases this

/-- The active directory is no data frame. -/
theorem Vm.Data.ne_dir {g : Nat} (hg : s.Data U g) (h : VmInv Z U kfree s) : g ≠ s.dir := by
  intro e
  rcases h.dir_cases with ⟨hd, -⟩ | ⟨hd, -⟩
  · have := hg.high
    unfold bootDir at hd
    omega
  · exact hg.notDir (e ▸ hd)

/-- Writing data frames. -/
theorem keptWrite (h : VmInv Z U kfree s) (mem' : Mem) (G : Nat → Prop) (hG : ∀ g, G g → s.Data U g)
    (hmem : ∀ f, ¬ G f → mem' f = s.mem f) : Kept Z kfree U s U { s with mem := mem' } := by
  obtain ⟨hsp, hg⟩ := h.spaces.writeFrames G (fun g hg => (hG g hg).high) (fun g hg => (hG g hg).notDir)
    (fun g hg => (hG g hg).notTable) hmem
  exact ⟨h.ofMem hsp hg, Frozen.ofMem s _, hg⟩

/-- `memset(p, 0, n pages)` on mapped data pages. -/
theorem memsetZero_pages (h : VmInv Z U kfree s) (p n : Nat) (hp0 : p ≠ 0) (F : Nat → Nat)
    (hw : ∀ i, i < n → walkPage s.mem s.dir (p + i) = some (F (p + i)))
    (hF : ∀ i, i < n → s.Data U (F (p + i)))
    (ht : ∀ i, i < n → table s.mem s.dir (p + i) < 512 ∨
      ∃ d j, s.Uses U (.utable d j) (table s.mem s.dir (p + i))) :
    ∃ s', memsetZero .debug s (p * 4096) (n * PG_SIZE) = .ok s' ∧ Kept Z kfree U s U s' ∧
      ∀ i j, i < n → j < 1024 → s'.mem (F (p + i)) j = 0 := by
  have hsep : ∀ i j, i < n → j < n → F (p + i) ≠ table s.mem s.dir (p + j) := by
    intro i j hi hj e
    have hd := hF i hi
    rcases ht j hj with hlow | ⟨d, k, hu⟩
    · have := hd.high
      omega
    · exact hd.notTable d k (e ▸ hu)
  obtain ⟨m', hfill, hzero, hother⟩ := fill_pages s.dir 0 F n p s.mem hw
    (fun i hi => (hF i hi).ne_dir h) hsep
  refine ⟨{ s with mem := m' }, ?_, ?_, hzero⟩
  · unfold memsetZero
    rw [show n * PG_SIZE / 4 = n * 1024 by unfold PG_SIZE; omega, hfill,
      decide_eq_true (show p * 4096 ≠ NULL by unfold NULL; omega)]
    rfl
  · refine keptWrite h m' (fun g => ∃ i, i < n ∧ g = F (p + i)) ?_ ?_
    · rintro g ⟨i, hi, rfl⟩
      exact hF i hi
    · intro f hf
      exact hother f (fun i hi e => hf ⟨i, hi, e⟩)

/-! ## get_kernel_pages -/

/-- The kernel's address pool: the first `U` pages of the heap are taken, and each of them has cost the
kernel pool a frame. -/
structure HeapInv (U : Nat) (s : Vm) : Prop where
  start : s.kernelVaddr.vaddrStart = K_HEAP_START
  len : s.kernelVaddr.vaddrBitmap.btmpBytesLen = s.kernelPool.poolBitmap.btmpBytesLen
  bits : ∀ i, i < 8 * s.kernelVaddr.vaddrBitmap.btmpBytesLen →
    (s.kernelVaddr.vaddrBitmap.bit i = true ↔ i < U)
  covered : U ≤ s.kernelPool.taken

theorem HeapInv.ofFrozen {s' : Vm} (h : HeapInv U s) (hf : Frozen s s') : HeapInv U s' where
  start := by rw [hf.kernelVaddr]; exact h.start
  len := by rw [hf.kernelVaddr, hf.kLen]; exact h.len
  bits := by rw [hf.kernelVaddr]; exact h.bits
  covered := Nat.le_trans h.covered hf.taken

/-- First fit on a bitmap whose set bits are the first `U`. -/
theorem firstRun_prefix (btmp : Bitmap) (U n st : Nat) (hn : 0 < n)
    (hb : ∀ i, i < 8 * btmp.btmpBytesLen → (btmp.bit i = true ↔ i < U)) (h : FirstRun btmp n st) :
    st = U := by
  have hst := h.start
  have hend := h.bound
  have hclear : btmp.bit st = false := by simpa using h.clear 0 hn
  have hge : ¬ st < U := by
    intro hlt
    have := (hb st hst).mpr hlt
    rw [hclear] at this
    cases this
  apply Classical.byContradiction
  intro hne
  obtain ⟨j, h1, h2, h3⟩ := h.least U (by omega)
  have := (hb j (by omega)).mp h3
  omega

/-- The heap pages just mapped hold data. -/
theorem newHeap_uses {U' : Nat} (h : VmInv Z U' kfree s) (hpg : ∀ p, s.DirPage p → p < 0xc0100 + U)
    (i : Nat) (hi : U + i < U') :
    ∃ f, s.Uses U' (.kpage (0xc0100 + U + i)) f ∧ s.Data U' f ∧
      walkPage s.mem s.dir (0xc0100 + U + i) = some f := by
  have hb := h.spaces.heapBound
  obtain ⟨f, -, hu⟩ := h.spaces.heap_walk (0xc0100 + U + i) (by omega) (by omega)
  refine ⟨f, hu, data_heap h _ _ hu (fun hd => ?_), ?_⟩
  · have := hpg _ hd
    omega
  · rw [h.walkPage_kernel _ (by omega) (by omega)]
    exact hu.2.2

/-- `malloc_page(PF_KERNEL, n)` that returns a range maps the next `n` pages of the heap.  The pool has
a frame for each of them, so they end inside the address pool even though the scan may look one bit
past it. -/
theorem mallocPage_kernel (h : VmInv Z U kfree s) (hh : HeapInv U s) (n a : Nat) (s' : Vm)
    (hm : mallocPage .debug s .PF_KERNEL n = .ok (a, s')) :
    (a = NULL ∧ s' = s) ∨
    (a = (0xc0100 + U) * 4096 ∧ 0 < n ∧ U + n ≤ 8 * s.kernelVaddr.vaddrBitmap.btmpBytesLen ∧
      HeapInv (U + n) s' ∧ Kept Z kfree U { s with kernelVaddr := s'.kernelVaddr } (U + n) s') := by
  unfold mallocPage at hm
  obtain ⟨u, hassert, hm⟩ := (bind_eq_ok _ _ _).mp hm
  have hn := (assert_debug_ok _ _ _ _).mp hassert
  simp only [Bool.and_eq_true, decide_eq_true_eq] at hn
  obtain ⟨⟨a0, s1⟩, hv, hm⟩ := (bind_eq_ok _ _ _).mp hm
  unfold vaddrGet at hv
  obtain ⟨⟨a0', va⟩, htake, hv⟩ := (bind_eq_ok _ _ _).mp hv
  simp only [pure_eq_ok, Except.ok.injEq, Prod.mk.injEq] at hv
  obtain ⟨rfl, rfl⟩ := hv
  rcases vaddrTake_spec _ _ _ _ _ hn.1 htake with ⟨rfl, rfl⟩ | ⟨st, hrun, rfl, hstart, hlen, hbit⟩
  · left
    simp only [if_pos, pure_eq_ok, Except.ok.injEq, Prod.mk.injEq] at hm
    exact ⟨hm.1.symm, hm.2.symm⟩
  · right
    have hst : st = U := firstRun_prefix _ _ _ _ hn.1 hh.bits hrun
    subst hst
    have hcap : s.kernelPool.taken ≤ 8 * s.kernelPool.poolBitmap.btmpBytesLen := Bitmap.count_le _ _
    have hkl := h.kLen
    have hkf := h.kfreeLt
    have hcov := hh.covered
    have haddr : (s.kernelVaddr.vaddrStart + st * 4096) % 2 ^ 32 = (0xc0100 + st) * 4096 := by
      rw [hh.start]
      unfold K_HEAP_START
      omega
    rw [haddr] at hm
    dsimp only at hm
    rw [if_neg (show (0xc0100 + st) * 4096 ≠ NULL by unfold NULL; omega)] at hm
    have h1 : VmInv Z st kfree { s with kernelVaddr := va } :=
      h.congr rfl rfl rfl (fun _ => rfl) rfl rfl rfl rfl
    obtain ⟨rfl, hk, ht⟩ := mallocLoop_kernel _ n st _ s' a h1 hcov hm
    have hcap' : s'.kernelPool.taken ≤ 8 * s'.kernelPool.poolBitmap.btmpBytesLen := Bitmap.count_le _ _
    have hlen' := hk.frozen.kLen
    have hkv : s'.kernelVaddr = va := hk.frozen.kernelVaddr
    have hb := hh.len
    simp only at ht hlen'
    refine ⟨rfl, hn.1, by omega, ?_, by rw [hkv]; exact hk⟩
    exact
      { start := by rw [hkv, hstart]; exact hh.start
        len := by rw [hkv, hlen, hlen']; exact hh.len
        bits := by
          intro i hi
          rw [hkv, hlen] at hi
          rw [hkv, hbit]
          have := hh.bits i hi
          simp only [Bool.or_eq_true, decide_eq_true_eq, this]
          omega
        covered := by omega }

/-- Zeroing heap pages that were just mapped: they are data, so no table is touched. -/
theorem memsetZero_newHeap {n : Nat} (h : VmInv Z (U + n) kfree s) (hpg : ∀ p, s.DirPage p → p < 0xc0100 + U) :
    ∃ s', memsetZero .debug s ((0xc0100 + U) * 4096) (n * PG_SIZE) = .ok s' ∧
      Kept Z kfree (U + n) s (U + n) s' ∧
      ∀ i, i < n → ∃ f, s'.Uses (U + n) (.kpage (0xc0100 + U + i)) f ∧ s'.Data (U + n) f ∧
        ∀ j, j < 1024 → s'.mem f j = 0 := by
  have hnew : ∀ i, i < n → _ := fun i hi => newHeap_uses h hpg i (by omega)
  have hb := h.spaces.heapBound
  obtain ⟨s', hset, hk, hzero⟩ := memsetZero_pages h (0xc0100 + U) n (by omega)
    (fun p => (walkPage s.mem s.dir p).getD 0)
    (fun i hi => by
      obtain ⟨f, -, -, hw⟩ := hnew i hi
      simp only [hw, Option.getD_some])
    (fun i hi => by
      obtain ⟨f, -, hd, hw⟩ := hnew i hi
      simp only [hw, Option.getD_some]
      exact hd)
    (fun i hi => Or.inl (by
      rw [h.table_kernel _ (by omega) (by omega)]
      omega))
  refine ⟨s', hset, hk, fun i hi => ?_⟩
  obtain ⟨f, hu, hd, hw⟩ := hnew i hi
  have hz := hzero i
  simp only [hw, Option.getD_some] at hz
  refine ⟨f, hk.grows _ _ hu, data_heap hk.inv _ _ (hk.grows _ _ hu) ?_, fun j hj => hz j hi hj⟩
  intro hdp
  rw [hk.frozen.dirPage] at hdp
  have := hpg _ hdp
  omega

/-- **get_kernel_pages** that returns a range: the next `n` pages of the heap, mapped and zeroed. -/
theorem getKernelPages_debug (h : VmInv Z U kfree s) (hh : HeapInv U s) (n a : Nat) (s' : Vm)
    (hc : getKernelPages .debug s n = .ok (a, s')) :
    (a = NULL ∧ s' = s) ∨
    (a = (0xc0100 + U) * 4096 ∧ 0 < n ∧ U + n ≤ 8 * s.kernelVaddr.vaddrBitmap.btmpBytesLen ∧
      HeapInv (U + n) s' ∧ Kept Z kfree U { s with kernelVaddr := s'.kernelVaddr } (U + n) s' ∧
      ∀ i, i < n → ∃ f, s'.Uses (U + n) (.kpage (0xc0100 + U + i)) f ∧ s'.Data (U + n) f ∧
        ∀ j, j < 1024 → s'.mem f j = 0) := by
  unfold getKernelPages at hc
  obtain ⟨⟨a1, s1⟩, hm, hr⟩ := (bind_eq_ok _ _ _).mp hc
  rcases mallocPage_kernel h hh n a1 s1 hm with ⟨rfl, rfl⟩ | ⟨rfl, hn, hend, hh1, hk1⟩
  · left
    simp only [ne_eq, not_true, if_false, pure_eq_ok, Except.ok.injEq, Prod.mk.injEq] at hr
    exact ⟨hr.1.symm, hr.2.symm⟩
  · right
    have hpg : ∀ p, s1.DirPage p → p < 0xc0100 + U := by
      intro p hp
      rw [hk1.frozen.dirPage] at hp
      exact (h.spaces.pgHeap p hp).2
    obtain ⟨s2, hset, hk2, hnew⟩ := memsetZero_newHeap hk1.inv hpg
    dsimp only at hr
    rw [if_pos (show (0xc0100 + U) * 4096 ≠ NULL by unfold NULL; omega)] at hr
    simp only [hset, bind, Except.bind, pure_eq_ok, Except.ok.injEq, Prod.mk.injEq] at hr
    obtain ⟨rfl, rfl⟩ := hr
    refine ⟨rfl, hn, hend, hh1.ofFrozen hk2.frozen, ?_, hnew⟩
    rw [hk2.frozen.kernelVaddr]
    exact hk1.trans hk2

/-- The next heap page can be mapped when its table entry is empty. -/
theorem pageTableAdd_heap_returns (h : VmInv Z U kfree s) (hz : Z) (f : Nat)
    (hb : 0xc0100 + U + 1 ≤ 0xffc00) :
    ∃ s', pageTableAdd .debug s ((0xc0100 + U) * 4096) (f * 4096) = .ok s' := by
  have hv : (0xc0100 + U) * 4096 < 2 ^ 32 := by omega
  have hpg : (0xc0100 + U) * 4096 / 4096 = 0xc0100 + U := by omega
  have hpde : s.mem s.dir ((0xc0100 + U) * 4096 / 4096 / 1024) % 2 = 1 := by
    rw [hpg, h.dir_kernel ((0xc0100 + U) / 1024) (by omega) (by omega)]
    omega
  have hslot := h.spaces.clean hz (0xc0100 + U) (by omega) (by omega)
  refine ⟨_, pageTableAdd_present .debug s _ f h.selfMapped hv hpde ?_⟩
  rw [hpg, h.table_kernel (0xc0100 + U) (by omega) (by omega), hslot]

/-- With the tables empty above the heap and a free bit in both bitmaps, a call for one page returns a
page. -/
theorem getKernelPages_one (h : VmInv Z U kfree s) (hz : Z) (hh : HeapInv U s) (i j : Nat)
    (hv : bitmapScan .debug s.kernelVaddr.vaddrBitmap 1 = .ok (some i))
    (hp : bitmapScan .debug s.kernelPool.poolBitmap 1 = .ok (some j)) :
    ∃ s', getKernelPages .debug s 1 = .ok ((0xc0100 + U) * 4096, s') := by
  obtain rfl : i = U := firstRun_prefix _ _ _ _ (by decide) hh.bits (bitmapScan_some _ _ _ _ (by decide) hv)
  have hrun := bitmapScan_some _ _ _ _ (by decide) hv
  have hst := hrun.start
  have hlen := hh.len
  have hkl := h.kLen
  have hkf := h.kfreeLt
  have haddr : (s.kernelVaddr.vaddrStart + i * PG_SIZE) % 2 ^ 32 = (0xc0100 + i) * 4096 := by
    rw [hh.start]
    unfold K_HEAP_START PG_SIZE
    omega
  have hne : (0xc0100 + i) * 4096 ≠ NULL := by unfold NULL; omega
  generalize hva : ({ s.kernelVaddr with vaddrBitmap := s.kernelVaddr.vaddrBitmap.write i 1 } :
    VirtualAddr) = va
  have hget : vaddrGet .debug s .PF_KERNEL 1 = .ok ((0xc0100 + i) * 4096, { s with kernelVaddr := va }) := by
    unfold vaddrGet vaddrTake
    simp only [hv, bind, Except.bind, setRun, bitmapSet_one, Nat.add_zero, pure_eq_ok, haddr, hva]
  have h1 : VmInv Z i kfree { s with kernelVaddr := va } :=
    h.congr rfl rfl rfl (fun _ => rfl) rfl rfl rfl rfl
  have hpal : ∃ a s1, pallocFrom .debug { s with kernelVaddr := va } .PF_KERNEL = .ok (a, s1) := by
    unfold pallocFrom palloc
    simp only [hp, bind, Except.bind, bitmapSet_one, pure_eq_ok]
    exact ⟨_, _, rfl⟩
  obtain ⟨a, s1, hpal⟩ := hpal
  obtain ⟨f, rfl, hf0, hk1, -, -, -⟩ := pallocFrom_kernel h1 _ _ hpal
  obtain ⟨s2, hadd⟩ := pageTableAdd_heap_returns hk1.inv hz f (by omega)
  have hm : mallocPage .debug s .PF_KERNEL 1 = .ok ((0xc0100 + i) * 4096, s2) := by
    unfold mallocPage
    have hfn : f * 4096 ≠ NULL := Nat.mul_ne_zero hf0 (by decide)
    simp only [hget, bind, Except.bind, mallocLoop, hpal, hadd, pure_eq_ok, if_neg hne, if_neg hfn]
    rfl
  rcases mallocPage_kernel h hh 1 _ s2 hm with ⟨he, -⟩ | ⟨-, -, -, -, hk2⟩
  · exact absurd he hne
  · obtain ⟨s3, hset, -⟩ := memsetZero_newHeap hk2.inv (fun p hp => by
      rw [hk2.frozen.dirPage] at hp
      exact (h.spaces.pgHeap p hp).2)
    refine ⟨s3, ?_⟩
    unfold getKernelPages
    simp only [hm, bind, Except.bind, ne_eq, hne, not_false_eq_true, if_true, hset, pure_eq_ok]

/-! ## get_user_pages and get_a_page -/

/-- The running task's address pool is replaced. -/
def Vm.withVaddr (s : Vm) (va : VirtualAddr) : Vm :=
  { s with task := Function.update s.task s.cur { s.task s.cur with userprogVaddr := va } }

theorem withVaddr_pgdir (s : Vm) (va : VirtualAddr) (t : Nat) :
    ((s.withVaddr va).task t).pgdir = (s.task t).pgdir := by
  unfold Vm.withVaddr
  by_cases ht : t = s.cur
  · subst ht
    simp only [Function.update_self]
  · simp only [Function.update_of_ne ht]

theorem withVaddr_dirPage (s : Vm) (va : VirtualAddr) : (s.withVaddr va).DirPage = s.DirPage := by
  funext p
  simp only [Vm.DirPage, withVaddr_pgdir]

theorem withVaddr_self (s : Vm) : s.withVaddr (s.task s.cur).userprogVaddr = s := by
  simp [Vm.withVaddr]

/-- What is kept from the state with the new address pool on is kept from the state before it on. -/
theorem Kept.growsFrom {U' : Nat} {s' : Vm} {va : VirtualAddr} (hk : Kept Z kfree U (s.withVaddr va) U' s') :
    s.Grows U s' U' := by
  intro u f hu
  refine hk.grows u f ?_
  rw [withVaddr_dirPage]
  exact hu

theorem VmInv.withVaddr (h : VmInv Z U kfree s) (va : VirtualAddr) : VmInv Z U kfree (s.withVaddr va) :=
  h.congr rfl rfl rfl (withVaddr_pgdir s va) rfl rfl rfl rfl

/-- The running task is a process with the address pool that `process_execute` gave it. -/
structure UserInv (s : Vm) : Prop where
  pgdir : (s.task s.cur).pgdir ≠ NULL
  start : (s.task s.cur).userprogVaddr.vaddrStart = USER_VADDR_START
  len : (s.task s.cur).userprogVaddr.vaddrBitmap.btmpBytesLen = userBtmpBytesLen

theorem UserInv.isDir (hu : UserInv s) (h : VmInv Z U kfree s) : IsDir s.mem s.DirPage s.dir := by
  rcases h.dir_cases with ⟨-, hn⟩ | ⟨hd, -⟩
  · exact absurd hn hu.pgdir
  · exact hd

/-- Bits `st, …, st + n - 1` of the address pool are set now; nothing else has changed. -/
structure VaddrTaken (va : VirtualAddr) (st n : Nat) (va' : VirtualAddr) : Prop where
  start : va'.vaddrStart = va.vaddrStart
  len : va'.vaddrBitmap.btmpBytesLen = va.vaddrBitmap.btmpBytesLen
  bits : ∀ j, va'.vaddrBitmap.bit j = (decide (st ≤ j ∧ j < st + n) || va.vaddrBitmap.bit j)

/-- `malloc_page(PF_USER, n)` that returns a range: the first free run of the process's addresses. -/
theorem mallocPage_user (h : VmInv Z U kfree s) (hu : UserInv s) (n a : Nat) (s' : Vm)
    (hm : mallocPage .debug s .PF_USER n = .ok (a, s')) :
    (a = NULL ∧ s' = s) ∨ ∃ st va, a = (0x8048 + st) * 4096 ∧ 0 < n ∧ 0x8048 + st + n ≤ 0xc0000 ∧
      FirstRun (s.task s.cur).userprogVaddr.vaddrBitmap n st ∧
      VaddrTaken (s.task s.cur).userprogVaddr st n va ∧ Kept Z kfree U (s.withVaddr va) U s' ∧
      ∀ i, i < n → ∃ f, s'.Uses U (.upage s.dir (0x8048 + st + i)) f := by
  unfold mallocPage at hm
  obtain ⟨u, hassert, hm⟩ := (bind_eq_ok _ _ _).mp hm
  have hn := (assert_debug_ok _ _ _ _).mp hassert
  simp only [Bool.and_eq_true, decide_eq_true_eq] at hn
  obtain ⟨⟨a0, s1⟩, hv, hm⟩ := (bind_eq_ok _ _ _).mp hm
  unfold vaddrGet at hv
  obtain ⟨⟨a0', va⟩, htake, hv⟩ := (bind_eq_ok _ _ _).mp hv
  obtain ⟨-, -, hv⟩ := (bind_eq_ok _ _ _).mp hv
  simp only [pure_eq_ok, Except.ok.injEq, Prod.mk.injEq] at hv
  obtain ⟨rfl, rfl⟩ := hv
  rcases vaddrTake_spec _ _ _ _ _ hn.1 htake with ⟨rfl, rfl⟩ | ⟨st, hrun, rfl, hstart, hlen, hbit⟩
  · left
    simp only [if_pos, pure_eq_ok, Except.ok.injEq, Prod.mk.injEq] at hm
    exact ⟨hm.1.symm, hm.2.symm.trans (withVaddr_self s)⟩
  · right
    have hst := hrun.start
    have hend := hrun.bound
    rw [hu.len, show userBtmpBytesLen = 94199 from rfl] at hst hend
    have haddr : ((s.task s.cur).userprogVaddr.vaddrStart + st * 4096) % 2 ^ 32 =
        (0x8048 + st) * 4096 := by
      rw [hu.start]
      unfold USER_VADDR_START
      omega
    rw [haddr] at hm
    dsimp only at hm
    rw [if_neg (show (0x8048 + st) * 4096 ≠ NULL by unfold NULL; omega)] at hm
    have hd : IsDir (s.withVaddr va).mem (s.withVaddr va).DirPage (s.withVaddr va).dir := by
      rw [withVaddr_dirPage]
      exact hu.isDir h
    obtain ⟨rfl, hk, hlast, hmap⟩ := mallocLoop_user _ n (0x8048 + st) _ s' a (h.withVaddr va) hd
      (by omega) (by omega) hm
    exact ⟨st, va, rfl, hn.1, hlast hn.1, hrun, ⟨hstart, hlen, hbit⟩, hk, hmap⟩

/-- Everything that happens while the user pool's lock is held, seen from outside. -/
theorem Kept.relock {U' : Nat} {s' : Vm} (l : Lock)
    (hk : Kept Z kfree U { s with userPool := { s.userPool with lock := l } } U' s') :
    Kept Z kfree U s U' { s' with userPool := { s'.userPool with lock := s.userPool.lock } } where
  inv := hk.inv.congr rfl rfl rfl (fun _ => rfl) rfl rfl rfl rfl
  frozen := ⟨hk.frozen.cur, hk.frozen.cr3, hk.frozen.kLock, rfl, hk.frozen.kLen, hk.frozen.taken,
    hk.frozen.kernelVaddr, hk.frozen.task⟩
  grows := hk.grows

/-- **get_user_pages** that returns a range: a free run of the process's addresses, mapped on frames of
the user pool. -/
theorem getUserPages_debug (h : VmInv Z U kfree s) (hu : UserInv s) (hl : s.userPool.lock = lockInit)
    (n a : Nat) (s' : Vm) (hc : getUserPages .debug s n = .ok (a, s')) :
    (a = NULL ∧ s' = s) ∨ ∃ st va, a = (0x8048 + st) * 4096 ∧ 0 < n ∧ 0x8048 + st + n ≤ 0xc0000 ∧
      FirstRun (s.task s.cur).userprogVaddr.vaddrBitmap n st ∧
      VaddrTaken (s.task s.cur).userprogVaddr st n va ∧ Kept Z kfree U (s.withVaddr va) U s' ∧
      ∀ i, i < n → ∃ f, s'.Uses U (.upage s.dir (0x8048 + st + i)) f := by
  unfold getUserPages at hc
  rw [hl, lockAcquire_free] at hc
  simp only [bind, Except.bind] at hc
  obtain ⟨⟨a1, s1⟩, hm, hr⟩ := (bind_eq_ok _ _ _).mp hc
  have h0 : VmInv Z U kfree { s with userPool := { s.userPool with lock := ⟨some s.cur, semaInit 0, 1⟩ } } :=
    h.congr rfl rfl rfl (fun _ => rfl) rfl rfl rfl rfl
  rcases mallocPage_user h0 ⟨hu.pgdir, hu.start, hu.len⟩ n a1 s1 hm with
    ⟨ha, hs⟩ | ⟨st, va, ha, hn, hend, hrun, hva, hk1, hmap⟩
  · left
    subst ha hs
    simp only [ne_eq, not_true, if_false, pure_eq_ok, lockRelease_held, Except.ok.injEq,
      Prod.mk.injEq] at hr
    refine ⟨hr.1.symm, ?_⟩
    rw [← hr.2, ← hl]
  · right
    subst ha
    have hdir : s1.dir = s.dir := hk1.frozen.dir
    simp only [ne_eq, show (0x8048 + st) * 4096 ≠ NULL by unfold NULL; omega, not_false_eq_true,
      if_true] at hr
    have hpage : ∀ i, i < n → ∃ f, s1.Uses U (.upage s1.dir (0x8048 + st + i)) f := by
      rw [hdir]
      exact hmap
    obtain ⟨s2, hset, hk2, -⟩ := memsetZero_pages hk1.inv (0x8048 + st) n (by omega)
      (fun p => (walkPage s1.mem s1.dir p).getD 0)
      (fun i hi => by
        obtain ⟨f, hf⟩ := hpage i hi
        simp only [hf.2.2, Option.getD_some])
      (fun i hi => by
        obtain ⟨f, hf⟩ := hpage i hi
        simp only [hf.2.2, Option.getD_some]
        exact data_upage hk1.inv _ _ _ hf)
      (fun i hi => by
        obtain ⟨f, hf⟩ := hpage i hi
        obtain ⟨hp, -, -⟩ := (walkPage_eq_some_iff _ _ _ _).mp hf.2.2
        exact Or.inr ⟨_, _, Spaces.uses_table hf.1 hf.2.1 hp⟩)
    have hk12 := hk1.trans hk2
    have hrel : lockRelease .debug s2.cur s2.userPool.lock = .ok lockInit := by
      rw [hk12.frozen.uLock, hk12.frozen.cur]
      exact lockRelease_held _ _
    simp only [hset, hrel, pure_eq_ok, Except.ok.injEq, Prod.mk.injEq] at hr
    obtain ⟨rfl, rfl⟩ := hr
    refine ⟨st, va, rfl, hn, hend, hrun, hva, ?_, fun i hi => ?_⟩
    · rw [← hl]
      exact Kept.relock (s := s.withVaddr va) _ hk12
    · obtain ⟨f, hf⟩ := hmap i hi
      exact ⟨f, hk2.grows _ _ hf⟩

/-- **get_a_page** that returns: the page was not mapped, and is now; its bit is set.  With `ASSERT`
compiled in, `palloc` does not return `NULL`, so the lock is always given back. -/
theorem getAPage_debug (h : VmInv Z U kfree s) (hu : UserInv s) (hl : s.userPool.lock = lockInit)
    (v a : Nat) (hv1 : USER_VADDR_START ≤ v) (hv2 : v < 0xc0000000) (s' : Vm)
    (hc : getAPage .debug s .PF_USER v = .ok (a, s')) :
    a = v ∧ walkPage s.mem s.dir (v / 4096) = none ∧ ∃ va,
      VaddrTaken (s.task s.cur).userprogVaddr (v / 4096 - 0x8048) 1 va ∧
      Kept Z kfree U (s.withVaddr va) U s' ∧ ∃ f, s'.Uses U (.upage s.dir (v / 4096)) f := by
  unfold USER_VADDR_START at hv1
  unfold getAPage at hc
  rw [show (s.pool .PF_USER).lock = lockInit from hl, lockAcquire_free] at hc
  simp only [bind, Except.bind] at hc
  obtain ⟨s1, hmark, hr⟩ := (bind_eq_ok _ _ _).mp hc
  obtain ⟨⟨b, s2⟩, hpal, hr⟩ := (bind_eq_ok _ _ _).mp hr
  have hidx : pageIdx v (s.task s.cur).userprogVaddr.vaddrStart = v / 4096 - 0x8048 := by
    rw [hu.start]
    unfold pageIdx PG_SIZE USER_VADDR_START
    omega
  generalize hva : ({ (s.task s.cur).userprogVaddr with
    vaddrBitmap := (s.task s.cur).userprogVaddr.vaddrBitmap.write (v / 4096 - 0x8048) 1 } :
      VirtualAddr) = va
  have hs1 : s1 = ({ s with userPool := { s.userPool with lock := ⟨some s.cur, semaInit 0, 1⟩ } } :
      Vm).withVaddr va := by
    unfold markPage at hmark
    simp only [Vm.setPoolLock, hu.pgdir, ne_eq, not_false_eq_true, and_self, if_true, hidx] at hmark
    obtain ⟨-, -, hmark⟩ := (bind_eq_ok _ _ _).mp hmark
    simp only [bitmapSet, assert, decide_true, Bool.or_true, if_true, bind, Except.bind, pure_eq_ok,
      Except.ok.injEq] at hmark
    rw [← hmark, ← hva]
    rfl
  have h1 : VmInv Z U kfree s1 := by
    rw [hs1]
    refine VmInv.withVaddr ?_ va
    exact h.congr rfl rfl rfl (fun _ => rfl) rfl rfl rfl rfl
  obtain ⟨f, rfl, hf0, hk2, hT, hfree⟩ := pallocFrom_user h1 b s2 hpal
  dsimp only at hr
  rw [if_neg (show f * 4096 ≠ NULL by unfold NULL; omega)] at hr
  obtain ⟨s3, hadd, hr⟩ := (bind_eq_ok _ _ _).mp hr
  have hd1 : IsDir s1.mem s1.DirPage s1.dir := by
    rw [hs1, withVaddr_dirPage]
    exact hu.isDir h
  have hdir1 : s1.dir = s.dir := by rw [hs1]; rfl
  have hmem2 : s2.mem = s.mem := by
    unfold pallocFrom at hpal
    obtain ⟨⟨c, pool⟩, -, hpal⟩ := (bind_eq_ok _ _ _).mp hpal
    simp only [pure_eq_ok, Except.ok.injEq, Prod.mk.injEq] at hpal
    rw [← hpal.2, hs1]
    rfl
  obtain ⟨hlt, hnone, hk3, huse⟩ := pageTableAdd_user hk2.inv
    (by rw [hk2.frozen.dir]; exact hk2.isDir h1 _ hd1) v (v / 4096) f rfl (by omega) (by omega) hT
    hfree s3 hadd
  rw [hk2.frozen.dir, hdir1] at hnone huse
  rw [hmem2] at hnone
  have hk23 := hk2.trans hk3
  have hrel : lockRelease .debug s3.cur (s3.pool .PF_USER).lock = .ok lockInit := by
    rw [hk23.frozen.cur, show (s3.pool .PF_USER).lock = s3.userPool.lock from rfl, hk23.frozen.uLock, hs1]
    exact lockRelease_held _ _
  simp only [hrel, pure_eq_ok, Except.ok.injEq, Prod.mk.injEq] at hr
  obtain ⟨rfl, rfl⟩ := hr
  refine ⟨rfl, hnone, va, ?_, ?_, f, huse⟩
  · refine ⟨by rw [← hva], by rw [← hva]; rfl, fun j => ?_⟩
    rw [← hva]
    simp only [Bitmap.bit_write]
    by_cases hj : j = v / 4096 - 0x8048
    · rw [if_pos hj, decide_eq_true (show v / 4096 - 0x8048 ≤ j ∧ j < v / 4096 - 0x8048 + 1 by omega)]
      rfl
    · rw [if_neg hj, decide_eq_false (by omega), Bool.false_or]
  · rw [hs1] at hk23
    rw [← hl]
    exact Kept.relock (s := s.withVaddr va) _ hk23

end

end MyOs
