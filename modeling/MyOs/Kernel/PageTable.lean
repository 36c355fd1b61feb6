import MyOs.Userprog.Process

/-!
# kernel/memory.c: what page_table_add maps

A walk reads two words, so a call of `page_table_add` is followed by looking at which words it writes: the
entry of `vaddr`, and, when the page table is new, the directory entry and every other entry of the new
table.  A page keeps its translation unless its walk goes through the entry of `vaddr`; since `setup_page`
makes directory entries 0 and 768 name one table, that does happen.

    pageTableAdd_maps     the page is mapped, and every page that does not share its entry is as before
    pageTableAdd_aliased  the first page of the kernel heap appears at 1 MB, too
-/

namespace MyOs

open Paging

/-- Frame and slot of the entry that `page_table_add(v, …)` fills in: that of the page table, or, when there
is none, that of the directory. -/
def freeEntry (m : Mem) (d v : Nat) : Nat × Nat :=
  if m d (v / 4096 / 1024) % 2 = 1 then (table m d (v / 4096), v / 4096 % 1024) else (d, v / 4096 / 1024)

/-- The walk of address `u` goes through that entry. -/
def SharesEntry (m : Mem) (d v u : Nat) : Prop :=
  WalkReads m d (u / 4096) (freeEntry m d v).1 (freeEntry m d v).2

/-- No present entry of the directory names frame `g`. -/
def Unreferenced (m : Mem) (d g : Nat) : Prop := ∀ i, i < 1024 → m d i % 2 = 1 → m d i / 4096 ≠ g

/-! ## A page table that is there -/

section
variable (m : Mem) (d p f : Nat) (hfree : m (table m d p) (p % 1024) % 2 = 0)

include hfree

/-- The entry that is set is no present entry of the directory, even if the directory is the table. -/
theorem setEntry_dir (w i : Nat) (hi : m d i % 2 = 1) : m.set (table m d p) (p % 1024) w d i = m d i := by
  unfold Mem.set
  rw [if_neg]
  rintro ⟨ht, rfl⟩
  rw [← ht] at hfree
  omega

/-- Every page with the same table and the same index is mapped to the frame. -/
theorem walkPage_setEntry (q : Nat) (hq : m d (q / 1024) % 2 = 1) (ht : table m d q = table m d p)
    (hi : q % 1024 = p % 1024) :
    walkPage (m.set (table m d p) (p % 1024) (f * 4096 + 7)) d q = some f := by
  have hdq := setEntry_dir m d p hfree (f * 4096 + 7) (q / 1024) hq
  have htab : table (m.set (table m d p) (p % 1024) (f * 4096 + 7)) d q = table m d p := by
    rw [← ht]
    show m.set (table m d q) _ _ d (q / 1024) / 4096 = m d (q / 1024) / 4096
    rw [ht, hdq]
  rw [walkPage_eq_some_iff, hdq, htab, hi, Mem.set_same]
  omega

end

/-! ## A new page table -/

/-- Memory once frame `g` is the table of page `p`, cleared but for the entry that maps `p` to `f`. -/
def withTable (m : Mem) (d p g f : Nat) : Mem :=
  ((m.set d (p / 1024) (g * 4096 + 7)).setRange g 0 1024 fun _ => 0).set g (p % 1024) (f * 4096 + 7)

section
variable (m : Mem) (d p g f : Nat)

theorem withTable_new (i : Nat) (hi : i < 1024) :
    withTable m d p g f g i = if i = p % 1024 then f * 4096 + 7 else 0 := by
  unfold withTable
  by_cases h : i = p % 1024
  · rw [h, Mem.set_same, if_pos rfl]
  · rw [Mem.set_slot_ne _ _ _ _ _ _ h, Mem.setRange_same _ _ _ _ _ _ (by omega) (by omega), if_neg h]

theorem withTable_other (t : Nat) (hd : t ≠ d) (ht : t ≠ g) : withTable m d p g f t = m t := by
  unfold withTable
  rw [Mem.set_frame_ne _ _ _ _ _ ht, Mem.setRange_frame_ne _ _ _ _ _ _ ht, Mem.set_frame_ne _ _ _ _ _ hd]

theorem withTable_dir (hne : g ≠ d) (i : Nat) :
    withTable m d p g f d i = if i = p / 1024 then g * 4096 + 7 else m d i := by
  unfold withTable
  rw [Mem.set_frame_ne _ _ _ _ _ hne.symm, Mem.setRange_frame_ne _ _ _ _ _ _ hne.symm]
  simp [Mem.set]

/-- The directory names itself, so a frame it does not name is another one. -/
theorem Unreferenced.ne_dir {m : Mem} {d g : Nat} (hg : Unreferenced m d g) (hs : SelfMapped m d) : g ≠ d := by
  intro he
  refine hg 1023 (by decide) hs.1 ?_
  rw [he]
  exact hs.2

/-- The pages of the new table: `p` is mapped, whatever the frame held before, and no other. -/
theorem walkPage_withTable (hne : g ≠ d) (q : Nat) (hq : q / 1024 = p / 1024) :
    walkPage (withTable m d p g f) d q = if q = p then some f else none := by
  have hd : withTable m d p g f d (q / 1024) = g * 4096 + 7 := by
    rw [withTable_dir m d p g f hne, if_pos hq]
  have ht : table (withTable m d p g f) d q = g := by
    unfold table
    rw [hd]
    omega
  have hw := withTable_new m d p g f (q % 1024) (by omega)
  by_cases he : q = p
  · subst he
    rw [if_pos rfl] at hw
    rw [if_pos rfl, walkPage_eq_some_iff, hd, ht, hw]
    omega
  · rw [if_neg (by omega)] at hw
    rw [if_neg he, walkPage_eq_none_iff, ht, hw]
    omega

/-- The pages of the other tables. -/
theorem walkPage_withTable_ne (hne : g ≠ d) (hg : Unreferenced m d g) (q : Nat) (hq : q < 2 ^ 20)
    (hr : ¬ WalkReads m d q d (p / 1024)) : walkPage (withTable m d p g f) d q = walkPage m d q := by
  have hi : q / 1024 ≠ p / 1024 := fun he => hr (.inl ⟨rfl, he.symm⟩)
  refine walkPage_congr m _ d d q ?_ ?_
  · rw [withTable_dir m d p g f hne, if_neg hi]
  · intro hd
    have htg : table m d q ≠ g := hg (q / 1024) (by omega) hd
    by_cases htd : table m d q = d
    · rw [htd, withTable_dir m d p g f hne, if_neg]
      intro he
      exact hr (.inr ⟨hd, htd.symm, he.symm⟩)
    · rw [withTable_other m d p g f _ htd htg]

end

/-! ## The call -/

/-- What a call `page_table_add(vaddr, page_phyaddr)` that leads from `s` to `s'` has mapped. -/
structure MapsPage (s s' : Vm) (vaddr pagePhyaddr : Nat) : Prop where
  /-- Both translations agree on the page. -/
  page : ∀ u, u / 4096 = vaddr / 4096 →
    addrV2p s' u = .ok (pagePhyaddr + u % 4096) ∧ walk s'.mem s'.dir u = some (pagePhyaddr + u % 4096)
  /-- Every page that does not go through the same entry is as before. -/
  others : ∀ u, u < 0xffc00000 → ¬ SharesEntry s.mem s.dir vaddr u →
    walk s'.mem s'.dir u = walk s.mem s.dir u
  /-- The other pages of a new table are unmapped. -/
  newTable : s.mem s.dir (vaddr / 4096 / 1024) % 2 = 0 → ∀ u, u / 4096 / 1024 = vaddr / 4096 / 1024 →
    u / 4096 ≠ vaddr / 4096 → walk s'.mem s'.dir u = none
  /-- The pages that share the entry are mapped to the same frame. -/
  shared : s.mem s.dir (vaddr / 4096 / 1024) % 2 = 1 → ∀ u, s.mem s.dir (u / 4096 / 1024) % 2 = 1 →
    table s.mem s.dir (u / 4096) = table s.mem s.dir (vaddr / 4096) →
    u / 4096 % 1024 = vaddr / 4096 % 1024 → walk s'.mem s'.dir u = some (pagePhyaddr + u % 4096)

/-- A page whose entry is there as `page_table_add` writes it. -/
theorem page_translates (s : Vm) (v f : Nat) (hs : SelfMapped s.mem s.dir) (hv : v < 0xffc00000)
    (hf : f < 2 ^ 20) (hd : s.mem s.dir (v / 4096 / 1024) % 2 = 1)
    (hword : s.mem (table s.mem s.dir (v / 4096)) (v / 4096 % 1024) = f * 4096 + 7) (u : Nat)
    (hu : u / 4096 = v / 4096) :
    addrV2p s u = .ok (f * 4096 + u % 4096) ∧ walk s.mem s.dir u = some (f * 4096 + u % 4096) := by
  rw [← hu] at hd hword
  constructor
  · rw [addrV2p_eq s u (f * 4096 + 7) hs (by omega) (by omega) hd hword,
      show (f * 4096 + 7) / 4096 = f by omega]
  · refine (walk_eq_some_iff _ _ _ _).mpr ⟨hd, ?_, ?_⟩
    · rw [hword]
      omega
    · rw [hword]
      omega

section
variable (s : Vm) (v f : Nat) (hs : SelfMapped s.mem s.dir) (hv : v < 0xffc00000) (hf : f < 2 ^ 20)

include hs hv hf

theorem mapsPage_present (hd : s.mem s.dir (v / 4096 / 1024) % 2 = 1)
    (hfree : s.mem (table s.mem s.dir (v / 4096)) (v / 4096 % 1024) % 2 = 0) :
    MapsPage s { s with mem := s.mem.set (table s.mem s.dir (v / 4096)) (v / 4096 % 1024) (f * 4096 + 7) } v
      (f * 4096) where
  page := by
    have hdir := setEntry_dir s.mem s.dir (v / 4096) hfree (f * 4096 + 7)
    have htab : table (s.mem.set (table s.mem s.dir (v / 4096)) (v / 4096 % 1024) (f * 4096 + 7)) s.dir
        (v / 4096) = table s.mem s.dir (v / 4096) := congrArg (· / 4096) (hdir _ hd)
    refine page_translates _ v f ⟨?_, ?_⟩ hv hf ?_ ?_
    · exact (congrArg (· % 2) (hdir 1023 hs.1)).trans hs.1
    · exact (congrArg (· / 4096) (hdir 1023 hs.1)).trans hs.2
    · exact (congrArg (· % 2) (hdir _ hd)).trans hd
    · show s.mem.set _ _ _ (table (s.mem.set _ _ _) s.dir (v / 4096)) _ = _
      rw [htab, Mem.set_same]
  others := by
    intro u _ hr
    refine walk_congr (walkPage_set_of_not_reads _ _ _ _ _ _ ?_)
    unfold SharesEntry freeEntry at hr
    rw [if_pos hd] at hr
    exact hr
  newTable := by
    intro h0
    omega
  shared := by
    intro _ u hu ht hi
    exact walk_of_walkPage (walkPage_setEntry s.mem s.dir (v / 4096) f hfree (u / 4096) hu ht hi)

theorem mapsPage_absent (g : Nat) (pool : Pool) (hd : s.mem s.dir (v / 4096 / 1024) % 2 = 0)
    (hg : Unreferenced s.mem s.dir g) :
    MapsPage s { s with kernelPool := pool, mem := withTable s.mem s.dir (v / 4096) g f } v (f * 4096) where
  page := by
    have hne := hg.ne_dir hs
    have hdir := withTable_dir s.mem s.dir (v / 4096) g f hne
    have hentry := hdir (v / 4096 / 1024)
    rw [if_pos rfl] at hentry
    have htab : table (withTable s.mem s.dir (v / 4096) g f) s.dir (v / 4096) = g := by
      unfold table
      rw [hentry]
      omega
    have hself := hdir 1023
    rw [if_neg (by omega)] at hself
    refine page_translates _ v f ⟨?_, ?_⟩ hv hf ?_ ?_
    · exact (congrArg (· % 2) hself).trans hs.1
    · exact (congrArg (· / 4096) hself).trans hs.2
    · show withTable s.mem s.dir (v / 4096) g f s.dir _ % 2 = 1
      rw [hentry]
      omega
    · show withTable s.mem s.dir (v / 4096) g f (table (withTable _ _ _ _ _) s.dir _) _ = _
      rw [htab, withTable_new _ _ _ _ _ _ (by omega), if_pos rfl]
  others := by
    intro u hu hr
    refine walk_congr (walkPage_withTable_ne s.mem s.dir (v / 4096) g f (hg.ne_dir hs) hg _ (by omega) ?_)
    unfold SharesEntry freeEntry at hr
    rw [if_neg (by omega)] at hr
    exact hr
  newTable := by
    intro _ u hblock hu
    show walk (withTable s.mem s.dir (v / 4096) g f) s.dir u = none
    rw [walk_eq_none_iff, walkPage_withTable s.mem s.dir (v / 4096) g f (hg.ne_dir hs) _ hblock, if_neg hu]
  shared := by
    intro h1
    omega

end

/-- **One page is mapped and nothing else disturbed.**  Under a directory whose last entry names itself, for
every page below the window that has no translation, and with a frame from `palloc` that no directory entry
names when the page table is missing, `page_table_add` returns and has mapped the page. -/
theorem pageTableAdd_maps (b : Build) (s : Vm) (vaddr pagePhyaddr : Nat) (hs : SelfMapped s.mem s.dir)
    (hv : vaddr < 0xffc00000) (hp : pagePhyaddr < 2 ^ 32) (hpa : pagePhyaddr % 4096 = 0)
    (hfree : walk s.mem s.dir vaddr = none)
    (hnew : s.mem s.dir (vaddr / 4096 / 1024) % 2 = 0 → ∃ g pool,
      palloc b s.kernelPool = .ok (g * 4096, pool) ∧ Unreferenced s.mem s.dir g) :
    ∃ s', pageTableAdd b s vaddr pagePhyaddr = .ok s' ∧ MapsPage s s' vaddr pagePhyaddr := by
  obtain ⟨f, rfl⟩ : ∃ f, pagePhyaddr = f * 4096 := ⟨pagePhyaddr / 4096, by omega⟩
  have hnone := hfree
  rw [walk_eq_none_iff, walkPage_eq_none_iff] at hnone
  rcases Nat.mod_two_eq_zero_or_one (s.mem s.dir (vaddr / 4096 / 1024)) with hd | hd
  · obtain ⟨g, pool, hpal, hg⟩ := hnew hd
    exact ⟨_, pageTableAdd_absent b s vaddr f hs (by omega) g pool hd hpal (hg.ne_dir hs),
      mapsPage_absent s vaddr f hs hv (by omega) g pool hd hg⟩
  · exact ⟨_, pageTableAdd_present b s vaddr f hs (by omega) hd (hnone hd),
      mapsPage_present s vaddr f hs hv (by omega) hd (hnone hd)⟩

/-! ## After setup_page -/

section
variable (allMem : Nat) (junk : Nat → Nat → UInt8) (ram : Mem)

theorem bootVm_selfMapped : SelfMapped (bootVm allMem junk ram).mem (bootVm allMem junk ram).dir := by
  rw [bootVm_mem, bootVm_dir]
  unfold SelfMapped
  rw [setupPage_self]
  decide

/-- The directory of `setup_page` names frames below 2 MB only. -/
theorem bootVm_unreferenced (g : Nat) (hg : 512 ≤ g) :
    Unreferenced (bootVm allMem junk ram).mem (bootVm allMem junk ram).dir g := by
  rw [bootVm_mem, bootVm_dir]
  intro i hi hp
  rcases Nat.eq_zero_or_pos i with rfl | hpos
  · rw [setupPage_low]
    omega
  · by_cases h1 : i < 768
    · rw [setupPage_user ram i hpos h1] at hp
      omega
    · by_cases h2 : i = 1023
      · subst h2
        rw [setupPage_self]
        unfold bootDir
        omega
      · rw [setupPage_kernel ram i (by omega) (by omega)]
        omega

end

/-- A machine with 4 MB of zeroed memory has the frame at 2 MB to give. -/
theorem palloc_4mb : ∃ pool,
    palloc .debug (bootVm 0x400000 (fun _ _ => 0) fun _ _ => 0).kernelPool = .ok (512 * 4096, pool) := by
  have hscan : bitmapScan .debug (bootVm 0x400000 (fun _ _ => 0) fun _ _ => 0).kernelPool.poolBitmap 1 =
    .ok (some 0) := rfl
  have hstart : (bootVm 0x400000 (fun _ _ => 0) fun _ _ => 0).kernelPool.phyAddrStart = 512 * 4096 := by
    simp only [bootVm, memPoolInit, poolLayout, PG_SIZE]
  unfold palloc
  simp only [hscan, hstart, bind, Except.bind, bitmapSet, assert, pure_eq_ok, Nat.zero_mul, Nat.zero_add]
  exact ⟨_, rfl⟩

/-- The first page of a user program: its page table is new. -/
theorem pageTableAdd_maps_text :
    ∃ s', pageTableAdd .debug (bootVm 0x400000 (fun _ _ => 0) fun _ _ => 0) 0x8048000 0x300000 = .ok s' ∧
      MapsPage (bootVm 0x400000 (fun _ _ => 0) fun _ _ => 0) s' 0x8048000 0x300000 := by
  have hd : (bootVm 0x400000 (fun _ _ => 0) fun _ _ => 0).mem
      (bootVm 0x400000 (fun _ _ => 0) fun _ _ => 0).dir (0x8048000 / 4096 / 1024) = 0 := by
    rw [bootVm_mem, bootVm_dir]
    exact setupPage_user _ _ (by decide) (by decide)
  obtain ⟨pool, hpal⟩ := palloc_4mb
  refine pageTableAdd_maps .debug _ 0x8048000 0x300000 (bootVm_selfMapped _ _ _) (by decide) (by decide)
    (by decide) ?_ fun _ => ⟨512, pool, hpal, bootVm_unreferenced _ _ _ 512 (by decide)⟩
  rw [walk_eq_none_iff, walkPage_eq_none_iff, hd]
  omega

/-- Mapping the first page of the kernel heap at 3 GB + 1 MB maps the page at 1 MB as well: directory entries
0 and 768 name one table. -/
theorem pageTableAdd_aliased :
    walk (bootVm 0x400000 (fun _ _ => 0) fun _ _ => 0).mem bootDir 0xc0100000 = none ∧
    walk (bootVm 0x400000 (fun _ _ => 0) fun _ _ => 0).mem bootDir 0x100000 = none ∧
    ∃ s', pageTableAdd .debug (bootVm 0x400000 (fun _ _ => 0) fun _ _ => 0) 0xc0100000 0x200000 = .ok s' ∧
      s'.dir = bootDir ∧ walk s'.mem bootDir 0x100000 = some 0x200000 := by
  generalize hs : bootVm 0x400000 (fun _ _ => 0) (fun _ _ => 0) = s
  have hself : SelfMapped s.mem s.dir := hs ▸ bootVm_selfMapped _ _ _
  have hmem : s.mem = setupPage fun _ _ => 0 := by rw [← hs, bootVm_mem]
  have hdir : s.dir = bootDir := by rw [← hs, bootVm_dir]
  have h768 : s.mem bootDir 768 = 257 * 4096 + 7 := by
    rw [hmem]
    exact setupPage_kernel _ 768 (by decide) (by decide)
  have h0 : s.mem bootDir 0 = 257 * 4096 + 7 := by
    rw [hmem]
    exact setupPage_low _
  have hslot : s.mem 257 256 = 0 := by
    rw [hmem]
    exact setupPage_other _ 257 256 (by decide) (fun _ => by decide)
  have hhigh : table s.mem bootDir 0xc0100 = 257 := by
    show s.mem bootDir 768 / 4096 = 257
    rw [h768]
  have hlow : table s.mem bootDir 0x100 = 257 := by
    show s.mem bootDir 0 / 4096 = 257
    rw [h0]
  have hnone : ∀ p, table s.mem bootDir p = 257 → p % 1024 = 256 → walkPage s.mem bootDir p = none := by
    intro p ht hp
    rw [walkPage_eq_none_iff, ht, hp, hslot]
    exact fun _ => rfl
  refine ⟨?_, ?_, ?_⟩
  · exact (walk_eq_none_iff _ _ _).mpr (hnone _ hhigh (by decide))
  · exact (walk_eq_none_iff _ _ _).mpr (hnone _ hlow (by decide))
  · have hpde : s.mem s.dir (0xc0100000 / 4096 / 1024) % 2 = 1 := by
      rw [hdir, show 0xc0100000 / 4096 / 1024 = 768 from rfl, h768]
    have hpte : s.mem (table s.mem s.dir (0xc0100000 / 4096)) (0xc0100000 / 4096 % 1024) % 2 = 0 := by
      rw [hdir, show 0xc0100000 / 4096 = 0xc0100 from rfl, hhigh, show 0xc0100 % 1024 = 256 from rfl, hslot]
    have hmaps := mapsPage_present s 0xc0100000 0x200 hself (by decide) (by decide) hpde hpte
    have hadd := pageTableAdd_present .debug s 0xc0100000 0x200 hself (by decide) hpde hpte
    rw [show 0x200 * 4096 = 0x200000 from rfl] at hadd hmaps
    refine ⟨_, hadd, show s.cr3 / 4096 = bootDir from hdir, ?_⟩
    have hlowPde : s.mem s.dir (0x100000 / 4096 / 1024) % 2 = 1 := by
      rw [hdir, show 0x100000 / 4096 / 1024 = 0 from rfl, h0]
    have htab : table s.mem s.dir (0x100000 / 4096) = table s.mem s.dir (0xc0100000 / 4096) := by
      rw [hdir]
      exact hlow.trans hhigh.symm
    have hshared := hmaps.shared hpde 0x100000 hlowPde htab rfl
    rw [show 0x200000 + 0x100000 % 4096 = 0x200000 from rfl] at hshared
    rw [← hdir]
    exact hshared

end MyOs
