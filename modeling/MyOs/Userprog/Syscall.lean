import MyOs.Kernel.IntrEntry

/-!
# userprog/syscall-init.c and kernel/kernel.S: the table of system calls

`syscall_handler` calls whatever word lies at `syscall_table + eax*4`.  `syscall_init` fills one entry, and
`init_all` does not call it.

    syscalled_target      the word is the address that runs
    syscall_unsafe        no value of eax reaches a handler that syscall_init stored
    syscallSafe_iff       with the entry in place, one value of eax in 2^30 does
-/

namespace MyOs

/-- `syscall_nr` -/
def SYSCALL_NR : Nat := 32

/-- The one `enum SYSCALL_NR`. -/
def SYS_GETPID : Nat := 0

/-- The addresses the linker gave. -/
structure SyscallImage where
  syscallTable : Word32
  sysGetpid : Word32

def SyscallImage.entry (img : SyscallImage) (i : Nat) : Word32 := img.syscallTable + BitVec.ofNat 32 i * 4

/-! ## Algorithm -/

/-- The word at each address. -/
abbrev WordMem := Word32 → Word32

/-- Memory, and the entries that `syscall_init` has stored. -/
structure TableState where
  mem : WordMem
  stored : List (Nat × Word32)

inductive InitCall where
  | idtInit
  | memInit
  | threadInit
  | timerInit
  | consoleInit
  | keyboardInit
  | tssInit
  | syscallInit
  deriving DecidableEq

def syscallInit (img : SyscallImage) (s : TableState) : TableState where
  mem := Function.update s.mem (img.entry SYS_GETPID) img.sysGetpid
  stored := (SYS_GETPID, img.sysGetpid) :: s.stored

/-- The other functions are what they do to memory. -/
def runInit (img : SyscallImage) (effect : InitCall → WordMem → WordMem) (s : TableState) : InitCall → TableState
  | .syscallInit => syscallInit img s
  | f => { s with mem := effect f s.mem }

def initAll : List InitCall :=
  [.idtInit, .memInit, .threadInit, .timerInit, .consoleInit, .keyboardInit, .tssInit]

inductive SyscallOutcome where
  | rejected
  | called (entry target : Word32)
  deriving DecidableEq

/-- What `call [syscall_table + eax*4]` reads its target from, and the target; nothing before it looks at `eax`. -/
def syscallOutcome (img : SyscallImage) (p : Platform) (m : X86) : SyscallOutcome :=
  let m := atSyscall p m
  let entry := img.syscallTable + m.gen .eax * 4
  .called entry (m.mem entry)

/-- The platform with the table in memory; `code` is what the code at an address does. -/
def Platform.withTable (p : Platform) (img : SyscallImage) (code : Word32 → X86 → X86) : Platform :=
  { p with syscallTable := fun eax m => code (m.mem (img.syscallTable + eax * 4)) m }

/-- The request is rejected, or its target is no null and was stored in an entry of the table. -/
def SyscallSafe (img : SyscallImage) (s : TableState) : SyscallOutcome → Prop
  | .rejected => True
  | .called entry target => target ≠ 0 ∧ ∃ i, i < SYSCALL_NR ∧ entry = img.entry i ∧ (i, target) ∈ s.stored

/-! ## Lemmas -/

section
variable (img : SyscallImage) (effect : InitCall → WordMem → WordMem) (p : Platform) (m : X86)

/-- The target is the code that runs. -/
theorem syscalled_target (code : Word32 → X86 → X86) : ∃ entry target,
    syscallOutcome img (p.withTable img code) m = .called entry target ∧
    syscalled (p.withTable img code) m = code target (atSyscall (p.withTable img code) m) := by
  refine ⟨_, _, rfl, ?_⟩
  unfold syscalled
  rw [atSyscall_gen]
  rfl

/-- Entries are stored by `syscall_init` only. -/
theorem runInit_stored (s : TableState) {f : InitCall} (hf : f ≠ .syscallInit) :
    (runInit img effect s f).stored = s.stored := by
  cases f with
  | syscallInit => exact absurd rfl hf
  | _ => rfl

theorem foldl_stored : ∀ (fs : List InitCall) (s : TableState), .syscallInit ∉ fs →
    (fs.foldl (runInit img effect) s).stored = s.stored := by
  intro fs
  induction fs with
  | nil => exact fun _ _ => rfl
  | cons f fs ih =>
    intro s hfs
    rw [List.mem_cons, not_or] at hfs
    rw [List.foldl_cons, ih _ hfs.2, runInit_stored img effect s (Ne.symm hfs.1)]

theorem initAll_stored (mem : WordMem) :
    (initAll.foldl (runInit img effect) { mem := mem, stored := [] }).stored = [] :=
  foldl_stored img effect initAll _ (by decide)

/-- **After init_all** no value of `eax` is safe. -/
theorem syscall_unsafe (mem : WordMem) :
    ¬ SyscallSafe img (initAll.foldl (runInit img effect) { mem, stored := [] }) (syscallOutcome img p m) := by
  rintro ⟨-, i, -, -, hi⟩
  rw [initAll_stored] at hi
  cases hi

/-- The scaled index comes back to the first entry. -/
theorem entry_zero_iff (eax : Word32) :
    img.syscallTable + eax * 4 = img.entry SYS_GETPID ↔ eax.toNat % 2 ^ 30 = 0 := by
  have hmul : (eax * 4).toNat = eax.toNat * 4 % 2 ^ 32 := BitVec.toNat_mul eax 4
  have h0 : img.entry SYS_GETPID = img.syscallTable := BitVec.add_zero _
  rw [h0, add_eq_left, ← BitVec.toNat_inj, hmul, show (0 : Word32).toNat = 0 from rfl]
  omega

/-- Were `syscall_init` called, and its entry kept, the multiples of 2^30 would be safe and the rest not. -/
theorem syscallSafe_iff (s : TableState) (hs : s.stored = []) (h0 : img.sysGetpid ≠ 0)
    (hmem : (atSyscall p m).mem (img.entry SYS_GETPID) = img.sysGetpid) :
    SyscallSafe img (syscallInit img s) (syscallOutcome img p m) ↔ (m.gen .eax).toNat % 2 ^ 30 = 0 := by
  have hstored : (syscallInit img s).stored = [(SYS_GETPID, img.sysGetpid)] := by
    unfold syscallInit
    rw [hs]
  rw [← entry_zero_iff img, ← atSyscall_gen p m]
  unfold syscallOutcome SyscallSafe
  rw [hstored]
  constructor
  · rintro ⟨-, i, -, he, hi⟩
    rw [List.mem_singleton, Prod.mk.injEq] at hi
    rw [he, hi.1]
  · intro he
    dsimp only
    rw [he, hmem]
    exact ⟨h0, SYS_GETPID, by decide, rfl, List.mem_singleton.mpr rfl⟩

end

/-- `getpid()` calls a null entry. -/
theorem getpid_null : ¬ ∀ (img : SyscallImage) (effect : InitCall → WordMem → WordMem)
    (mem : WordMem) (p : Platform) (m : X86),
    SyscallSafe img (initAll.foldl (runInit img effect) { mem, stored := [] }) (syscallOutcome img p m) := by
  intro hall
  have hcall : syscallOutcome ⟨0xc0005000, 0xc0002000⟩ samplePlatform { sampleContext with gen := fun _ => 0 } =
      .called 0xc0005000 0 := by decide +kernel
  have hsafe := hall ⟨0xc0005000, 0xc0002000⟩ (fun _ mem => mem) (fun _ => 0) samplePlatform
    { sampleContext with gen := fun _ => 0 }
  rw [hcall] at hsafe
  exact hsafe.1 rfl

end MyOs
