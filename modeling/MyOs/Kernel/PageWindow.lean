import MyOs.Kernel.PageTable

/-!
# kernel/memory.c: the windows of pte_ptr and pde_ptr

A directory whose last entry names the directory itself is its own page table for the last 4 MB of addresses.
`pde_ptr` and `pte_ptr` build addresses there out of an address's two indices, and `addr_v2p` reads the
entry it finds and puts the page offset under it.

    windowsRight   both pointers lead to the entries of the address, and addr_v2p agrees with the walk

Nothing is asked of the other entries, and the address may lie in the window itself.
-/

namespace MyOs

open Paging

/-! ## Algorithm -/

/-- What the three functions compute for `vaddr`, compared with the walk of the processor. -/
structure WindowsRight (s : Vm) (vaddr : Nat) : Prop where
  pde : walk s.mem s.dir (pdePtr vaddr) = some (dirEntryAddr s.dir vaddr)
  pte : s.mem s.dir (vaddr / 4096 / 1024) % 2 = 1 →
    walk s.mem s.dir (ptePtr vaddr) = some (tableEntryAddr s.mem s.dir vaddr)
  v2p : ∀ a, walk s.mem s.dir vaddr = some a → addrV2p s vaddr = .ok a

/-! ## Lemmas -/

section
variable (s : Vm) (vaddr : Nat) (hs : SelfMapped s.mem s.dir) (hv : vaddr < 2 ^ 32)

include hs hv

theorem walk_pdePtr : walk s.mem s.dir (pdePtr vaddr) = some (dirEntryAddr s.dir vaddr) := by
  rw [pdePtr_eq vaddr hv]
  exact walk_dirWindow s.mem s.dir vaddr hs hv

theorem walk_ptePtr (hp : s.mem s.dir (vaddr / 4096 / 1024) % 2 = 1) :
    walk s.mem s.dir (ptePtr vaddr) = some (tableEntryAddr s.mem s.dir vaddr) := by
  rw [ptePtr_eq vaddr hv]
  exact walk_tableWindow s.mem s.dir vaddr hs hv hp

theorem addrV2p_of_walk (hw : ∀ f i, i < 1024 → s.mem f i < 2 ^ 32) (a : Nat)
    (ha : walk s.mem s.dir vaddr = some a) : addrV2p s vaddr = .ok a := by
  obtain ⟨hd, -, rfl⟩ := (walk_eq_some_iff _ _ _ _).mp ha
  exact addrV2p_eq s vaddr _ hs hv (hw _ _ (by omega)) hd rfl

end

/-- **The windows are right.**  Under every directory whose last entry names itself, for every address. -/
theorem windowsRight (s : Vm) (hs : SelfMapped s.mem s.dir) (hw : ∀ f i, i < 1024 → s.mem f i < 2 ^ 32)
    (vaddr : Nat) (hv : vaddr < 2 ^ 32) : WindowsRight s vaddr where
  pde := walk_pdePtr s vaddr hs hv
  pte := walk_ptePtr s vaddr hs hv
  v2p := addrV2p_of_walk s vaddr hs hv hw

/-- After `setup_page`, for an address of the kernel and for an address of the window. -/
theorem windowsRight_boot :
    WindowsRight (bootVm 0x2000000 (fun _ _ => 0) fun _ _ => 0) 0xc0001234 ∧
    WindowsRight (bootVm 0x2000000 (fun _ _ => 0) fun _ _ => 0) 0xfffffc00 := by
  have hs := bootVm_selfMapped 0x2000000 (fun _ _ => 0) fun _ _ => 0
  have hw : ∀ f i, i < 1024 → (bootVm 0x2000000 (fun _ _ => 0) fun _ _ => 0).mem f i < 2 ^ 32 := by
    intro f i hi
    rw [bootVm_mem]
    exact setupPage_lt _ (fun _ _ => by decide) f i hi
  exact ⟨windowsRight _ hs hw 0xc0001234 (by decide), windowsRight _ hs hw 0xfffffc00 (by decide)⟩

end MyOs
