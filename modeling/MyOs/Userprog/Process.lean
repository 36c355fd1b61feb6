import MyOs.Kernel.Memory
import MyOs.Boot.Loader

/-!
# userprog/process.c: page directories of processes

`create_page_dir` takes a heap page, copies the kernel half of the active directory into it and points
its last entry at itself; `page_dir_activate` loads `cr3`.  The last section lists the calls whose runs
`MyOs.Kernel.Allocator` is about, and the state they start from.
-/

namespace MyOs

open Paging

def USER_VADDR_START : Nat := 0x8048000
def USER_STACK3_VADDR : Nat := 0xc0000000 - 0x1000

/-! ## Algorithm -/

def createPageDir (b : Build) (s : Vm) : Except Halt (Nat × Vm) := do
  let (pageDirVaddr, s) ← getKernelPages b s 1
  if pageDirVaddr = NULL then pure (NULL, s)
  else
    let s ← memcpy b s (pageDirVaddr + 0x300 * 4) (0xfffff000 + 0x300 * 4) 1024
    let newPageDirPhyAddr ← addrV2p s pageDirVaddr
    let s ← storeWord s (pageDirVaddr + 1023 * 4) (newPageDirPhyAddr ||| PG_US_U ||| PG_RW_W ||| PG_P_1)
    pure (pageDirVaddr, s)

/-- The local variable of `page_dir_activate`: a thread without a directory of its own runs under the
boot one. -/
def pagedirPhyAddr (s : Vm) (pThread : Nat) : Except Halt Nat :=
  if (s.task pThread).pgdir ≠ NULL then addrV2p s (s.task pThread).pgdir else pure 0x100000

def pageDirActivate (s : Vm) (pThread : Nat) : Except Halt Vm := do
  let addr ← pagedirPhyAddr s pThread
  pure { s with cr3 := addr }

def DIV_ROUND_UP (x step : Nat) : Nat := (x + step - 1) / step

/-- The bytes of a process's address bitmap. -/
def userBtmpBytesLen : Nat := (0xc0000000 - USER_VADDR_START) / PG_SIZE / 8

/-- The address pool that `create_user_vaddr_bitmap` sets up. -/
def newUserVaddr : VirtualAddr where
  vaddrStart := USER_VADDR_START
  vaddrBitmap := bitmapInit { btmpBytesLen := userBtmpBytesLen, bits := fun _ => 0 }

/-- `create_user_vaddr_bitmap`: `DIV_ROUND_UP(userBtmpBytesLen, PG_SIZE)` heap pages, zeroed by
`get_kernel_pages`, hold the bits. -/
def createUserVaddrBitmap (b : Build) (s : Vm) : Except Halt (VirtualAddr × Vm) := do
  let (_, s) ← getKernelPages b s (DIV_ROUND_UP userBtmpBytesLen PG_SIZE)
  pure (newUserVaddr, s)

/-! ## Runs of allocator calls -/

/-- One call.  `createPageDir t` is `process_execute`'s `thread->pgdir = create_page_dir()` for the new
task `t`, whose address pool is fresh (the heap pages that hold the PCB and the bitmap are
`getKernelPages` calls of the same run); `pageDirActivate t` is the switch to task `t`. -/
inductive MemOp where
  | getKernelPages (pgCnt : Nat)
  | getUserPages (pgCnt : Nat)
  | getAPage (vaddr : Nat)
  | createPageDir (t : Nat)
  | pageDirActivate (t : Nat)
  deriving DecidableEq, Repr

/-- A range of pages that a call returned: to the kernel, or to task `t`. -/
structure Range where
  space : Option Nat
  start : Nat
  pages : Nat
  deriving DecidableEq, Repr

/-- The memory system and the ranges returned so far, the latest first. -/
structure MemSys where
  vm : Vm
  hist : List Range

def record (space : Option Nat) (vaddr pgCnt : Nat) (hist : List Range) : List Range :=
  if vaddr = NULL then hist else { space := space, start := vaddr, pages := pgCnt } :: hist

def MemSys.step (s : MemSys) : MemOp → Except Halt MemSys
  | .getKernelPages pgCnt => do
    let (vaddr, vm) ← MyOs.getKernelPages .debug s.vm pgCnt
    pure { vm := vm, hist := record none vaddr pgCnt s.hist }
  | .getUserPages pgCnt => do
    let (vaddr, vm) ← MyOs.getUserPages .debug s.vm pgCnt
    pure { vm := vm, hist := record (some s.vm.cur) vaddr pgCnt s.hist }
  | .getAPage vaddr => do
    let (r, vm) ← MyOs.getAPage .debug s.vm .PF_USER vaddr
    pure { vm := vm, hist := record (some s.vm.cur) r 1 s.hist }
  | .createPageDir t => do
    let (vaddr, vm) ← MyOs.createPageDir .debug s.vm
    pure { vm := { vm with
             task := Function.update vm.task t { pgdir := vaddr, userprogVaddr := newUserVaddr } }
           hist := record none vaddr 1 s.hist }
  | .pageDirActivate t => do
    let vm ← MyOs.pageDirActivate s.vm t
    pure { vm := { vm with cur := t }, hist := s.hist }

/-- When a call may be made: user pages are asked for by a process, for an address its bitmap covers; a
directory is created for a new task. -/
def MemOp.Allowed (s : MemSys) : MemOp → Prop
  | .getKernelPages _ => True
  | .getUserPages _ => (s.vm.task s.vm.cur).pgdir ≠ NULL
  | .getAPage vaddr =>
    (s.vm.task s.vm.cur).pgdir ≠ NULL ∧ USER_VADDR_START ≤ vaddr ∧ vaddr < 0xc0000000
  | .createPageDir t => (s.vm.task t).pgdir = NULL ∧ t ≠ s.vm.cur
  | .pageDirActivate _ => True

/-- The machine as `loader.S` and `mem_init` leave it: `ram` is what physical memory held before,
`junk` what the area of the bitmaps held.  The main thread runs, under the boot directory. -/
def bootVm (allMem : Nat) (junk : Nat → Nat → UInt8) (ram : Mem) : Vm :=
  memPoolInit allMem junk
    { mem := setupPage ram
      cr3 := PAGE_DIR_TABLE_POS
      kernelPool := { poolBitmap := ⟨0, fun _ => 0⟩, phyAddrStart := 0, poolSize := 0, lock := lockInit }
      userPool := { poolBitmap := ⟨0, fun _ => 0⟩, phyAddrStart := 0, poolSize := 0, lock := lockInit }
      kernelVaddr := { vaddrBitmap := ⟨0, fun _ => 0⟩, vaddrStart := 0 }
      task := fun _ => { pgdir := NULL, userprogVaddr := { vaddrBitmap := ⟨0, fun _ => 0⟩, vaddrStart := 0 } }
      cur := 0 }

theorem bootVm_mem (allMem : Nat) (junk : Nat → Nat → UInt8) (ram : Mem) :
    (bootVm allMem junk ram).mem = setupPage ram := by
  simp only [bootVm, memPoolInit]

theorem bootVm_dir (allMem : Nat) (junk : Nat → Nat → UInt8) (ram : Mem) :
    (bootVm allMem junk ram).dir = bootDir := by
  simp only [Vm.dir, bootVm, memPoolInit, PAGE_DIR_TABLE_POS, bootDir]

def bootSys (allMem : Nat) (junk : Nat → Nat → UInt8) (ram : Mem) : MemSys :=
  { vm := bootVm allMem junk ram, hist := [] }

end MyOs
