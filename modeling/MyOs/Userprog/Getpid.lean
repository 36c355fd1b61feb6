import MyOs.Kernel.IntrEntry
import MyOs.Userprog.KernelStack

/-!
# userprog/syscall-init.c: getpid, from int 0x80 to its result

The path of a system call through the processor, `syscall_handler`, `sys_getpid`, `running_thread` and
`intr_exit`, on the kernel stack that the task state segment holds for the process.  The table entry is
taken as `syscall_init` stores it.

    atSyscall_frame      what the entry of a system call writes
    sysGetpid_cdecl      the handler keeps to the C convention
    getpid_returns       the process gets its own pid, and nothing else changes
-/

namespace MyOs

/-! ## Algorithm -/

/-- What the compiled `sys_getpid` does besides computing its value: how far below the stack pointer
`running_thread` reads it, how far its frames reach, what they leave there, and the registers that belong
to the caller. -/
structure GetpidCode where
  depth : Nat
  frame : Nat
  below : X86 → Word32 → Word32
  ecx : X86 → Word32
  edx : X86 → Word32
  eflags : X86 → Word32

/-- `running_thread()->pid`, in `eax`; `pid` is the halfword at offset 4. -/
def getpidValue (m : X86) (depth : Nat) : Word32 :=
  let thread := (m.esp - .ofNat 32 depth) &&& 0xfffff000
  ((m.mem (thread + 4)).setWidth 16).setWidth 32

/-- The whole call of `sys_getpid`. -/
def sysGetpid (c : GetpidCode) (m : X86) : X86 :=
  { m with
    gen := Function.update (Function.update (Function.update m.gen .ecx (c.ecx m)) .edx (c.edx m))
      .eax (getpidValue m c.depth)
    eflags := c.eflags m
    mem := fun a => if 0 < (m.esp - a).toNat ∧ (m.esp - a).toNat ≤ c.frame then c.below m a else m.mem a }

/-- The return addresses of `sys_getpid` and `running_thread` at least; and what fits on an empty kernel stack
below the words of the entry. -/
structure GetpidCode.Fits (c : GetpidCode) : Prop where
  returns : 8 ≤ c.depth
  depth : c.depth ≤ c.frame
  room : c.frame ≤ 3900

/-- `m` is the user process on the CPU of `s`, at `int 0x80`: in ring 3, with the memory of `s`. -/
structure AtInt80 (s : Tasks) (p : Platform) (m : X86) : Prop where
  ring : rpl m.cs ≠ 0
  esp0 : p.esp0 = .ofNat 32 s.esp0
  mem : ∀ a, s.sys.cur ≤ a → a < s.sys.cur + 4096 → m.mem (.ofNat 32 a) = .ofNat 32 (s.sys.cpu.mem a)

/-! ## The stack of the entry -/

theorem X86.pushes_append (m : X86) (us ws : List Word32) : (m.pushes us).pushes ws = m.pushes (us ++ ws) :=
  List.foldl_append.symm

/-- Pushes that stay above address 0. -/
theorem X86.pushes_frame : ∀ (ws : List Word32) (m : X86), 4 * ws.length ≤ m.esp.toNat →
    (m.pushes ws).esp.toNat = m.esp.toNat - 4 * ws.length ∧
    ∀ a : Word32, a.toNat < m.esp.toNat - 4 * ws.length ∨ m.esp.toNat ≤ a.toNat →
      (m.pushes ws).mem a = m.mem a := by
  intro ws
  induction ws with
  | nil =>
    intro m _
    exact ⟨by simp [X86.pushes], fun _ _ => rfl⟩
  | cons w ws ih =>
    intro m h
    rw [List.length_cons] at h ⊢
    have hesp : (m.push w).esp.toNat = m.esp.toNat - 4 := by
      simp only [X86.push]
      bv_omega
    obtain ⟨h1, h2⟩ := ih (m.push w) (by omega)
    have hcons : m.pushes (w :: ws) = (m.push w).pushes ws := rfl
    rw [hcons]
    refine ⟨by omega, fun a ha => ?_⟩
    rw [h2 a (by omega)]
    simp only [X86.push]
    refine Function.update_of_ne ?_ _ _
    intro he
    have : a.toNat = m.esp.toNat - 4 := by rw [he]; exact hesp
    omega

/-- From ring 3 the entry of a system call pushes 22 words on the stack of the task state segment. -/
theorem atSyscall_frame (p : Platform) (m : X86) (hr : rpl m.cs ≠ 0) (h : 88 ≤ p.esp0.toNat) :
    (atSyscall p m).esp.toNat = p.esp0.toNat - 88 ∧
    ∀ a : Word32, a.toNat < p.esp0.toNat - 88 ∨ p.esp0.toNat ≤ a.toNat →
      (atSyscall p m).mem a = m.mem a := by
  -- the five words of the processor
  have hd : (deliver p 0x80 0 m).esp.toNat = p.esp0.toNat - 20 ∧
      ∀ a : Word32, a.toNat < p.esp0.toNat - 20 ∨ p.esp0.toNat ≤ a.toNat →
        (deliver p 0x80 0 m).mem a = m.mem a := by
    have hp := X86.pushes_frame [m.ss.setWidth 32, m.esp, m.eflags, m.cs.setWidth 32, m.eip]
      { m with esp := p.esp0, ss := SELECTOR_K_STACK } (by simp only [List.length_cons, List.length_nil]; omega)
    unfold deliver
    rw [if_neg hr]
    exact hp
  obtain ⟨h1, h2⟩ := hd
  -- the seventeen of the stub
  generalize hd : (deliver p 0x80 0 m).pushes [0] = d
  obtain ⟨ws, hws⟩ : ∃ ws : List Word32, ws = [0] ++ ((contextWords d (d.esp - 4 - 4 - 4 - 4)).reverse ++
      [0x80, m.gen .edx, m.gen .ecx, m.gen .ebx]) := ⟨_, rfl⟩
  have hlen : ws.length = 17 := by
    rw [hws]
    simp only [List.length_append, List.length_reverse, contextWords_length, List.length_cons, List.length_nil]
  have heq : atSyscall p m = (deliver p 0x80 0 m).pushes ws := by
    rw [atSyscall_eq]
    unfold atSyscallPushes
    rw [hd, exec_pushContext, X86.pushes_append, hws,
      ← X86.pushes_append (deliver p 0x80 0 m) [0], hd]
  obtain ⟨h3, h4⟩ := X86.pushes_frame ws (deliver p 0x80 0 m) (by omega)
  rw [heq]
  refine ⟨by omega, fun a ha => ?_⟩
  rw [h4 a (by omega), h2 a (by omega)]

/-- The pops of `intr_exit` write nothing. -/
theorem exec_intrExit_mem (p : Platform) (m : X86) : (exec p intrExit m).mem = m.mem := by
  have hi : ∀ m : X86, m.iretd.mem = m.mem := by
    intro m
    unfold X86.iretd
    dsimp only [X86.skip]
    split <;> rfl
  exact hi _

/-- `add esp, 12; mov [esp + 8*4], eax`. -/
theorem exec_movStack_mem (p : Platform) (m : X86) : (exec p [.addEsp 12, .movStack 32] m).mem =
    Function.update m.mem (m.esp + 12 + 32) (m.gen .eax) := rfl

/-! ## The handler -/

theorem sysGetpid_mem (c : GetpidCode) (m : X86) (a : Word32) : (sysGetpid c m).mem a =
    if 0 < (m.esp - a).toNat ∧ (m.esp - a).toNat ≤ c.frame then c.below m a else m.mem a := rfl

theorem sysGetpid_esp (c : GetpidCode) (m : X86) : (sysGetpid c m).esp = m.esp := rfl

section
variable (c : GetpidCode) (hc : c.Fits) (m : X86)

include hc

theorem sysGetpid_cdecl : Cdecl 3 m (sysGetpid c m) where
  esp := rfl
  saved r hr := by
    simp only [List.mem_cons, List.not_mem_nil, or_false] at hr
    rcases hr with rfl | rfl | rfl | rfl <;> rfl
  seg := rfl
  cs := rfl
  ss := rfl
  frame i h1 h2 := by
    have hroom := hc.room
    unfold sizeofIntrStack at h2
    have hi : (i • (4 : Word32)).toNat = 4 * i := by
      rw [nsmul_eq_mul, BitVec.toNat_mul]
      simp only [BitVec.natCast_eq_ofNat, BitVec.toNat_ofNat, show BitVec.toNat (4 : Word32) = 4 from rfl]
      omega
    rw [sysGetpid_mem]
    refine if_neg ?_
    generalize i • (4 : Word32) = k at hi
    bv_omega

/-- The stack pointer of `running_thread` is still in the page of `t`. -/
theorem getpidValue_eq (t : Nat) (ht : t % 4096 = 0) (hb : t + 4096 < 2 ^ 32)
    (hesp : m.esp.toNat = t + 4096 - 88) :
    getpidValue m c.depth = ((m.mem (.ofNat 32 (t + 4))).setWidth 16).setWidth 32 := by
  have h1 := hc.returns
  have h2 := hc.depth
  have h3 := hc.room
  have hsub : (m.esp - .ofNat 32 c.depth).toNat = m.esp.toNat - c.depth := by
    have hdepth : (BitVec.ofNat 32 c.depth).toNat = c.depth := by
      rw [BitVec.toNat_ofNat]
      exact Nat.mod_eq_of_lt (by omega)
    bv_omega
  have hmask := runningThread_eq t _ ht (by omega) (show t ≤ m.esp.toNat - c.depth by omega) (by omega)
  have hthread : (m.esp - .ofNat 32 c.depth) &&& 0xfffff000 = .ofNat 32 t := by
    apply BitVec.eq_of_toNat_eq
    rw [BitVec.toNat_and, hsub, BitVec.toNat_ofNat, Nat.mod_eq_of_lt (show t < 2 ^ 32 by omega)]
    exact hmask
  unfold getpidValue
  rw [hthread, BitVec.ofNat_add]
  rfl

end

/-! ## The system call -/

/-- **getpid() returns the pid of the process that calls it.**  In every run, for the process in ring 3: after
`int 0x80` with `eax` 0 it continues with its pid in `eax` and all its other registers as they were, and
memory differs only in the page of its PCB. -/
theorem getpid_returns (b : Build) (kernelThread : Nat) (cpu : Cpu) (main : Nat) (info : ThreadInfo)
    (esp0 : Nat) (h1 : main % 4096 = 0) (h2 : main + 4096 < 2 ^ 32) (h3 : OnStack main cpu.esp)
    (es : List TaskEvent) (s : Tasks)
    (hr : Runs (Tasks.step b kernelThread) TaskEvent.Allowed (bootTasks cpu main info esp0) es s)
    (hu : s.user = true) (n : Nat) (hn : s.pid s.sys.cur = some n)
    (p : Platform) (m : X86) (hm : AtInt80 s p m) (c : GetpidCode) (hc : c.Fits)
    (htable : p.syscallTable 0 = sysGetpid c) (heax : m.gen .eax = 0) :
    Resumes { m with gen := Function.update m.gen .eax (.ofNat 32 n) } (int80 p m) ∧
    ∀ a : Word32, a.toNat < s.sys.cur ∨ s.sys.cur + 4096 ≤ a.toNat → (int80 p m).mem a = m.mem a := by
  have h := TaskInv.run b cpu main info esp0 h1 h2 h3 es s hr
  have hcur := (h.switch.page s.sys.cur h.switch.cur).1
  have hlow := h.low s.sys.cur h.switch.cur
  obtain ⟨-, hpid, hn16⟩ := h.pid _ _ hn
  -- the kernel stack of the process is empty
  have htop : p.esp0.toNat = s.sys.cur + 4096 := by
    rw [hm.esp0, BitVec.toNat_ofNat, h.esp0 (h.ring3 hu)]
    exact Nat.mod_eq_of_lt hlow
  obtain ⟨hesp, hmem⟩ := atSyscall_frame p m hm.ring (by omega)
  rw [htop] at hesp hmem
  have hcall : syscalled p m = sysGetpid c (atSyscall p m) := by
    unfold syscalled
    rw [heax, htable]
  have hcdecl : Cdecl 3 (atSyscall p m) (syscalled p m) := by
    rw [hcall]
    exact sysGetpid_cdecl c hc _
  -- the value
  have hval : (p.syscallTable (m.gen .eax) (atSyscall p m)).gen .eax = .ofNat 32 n := by
    rw [heax, htable]
    show getpidValue (atSyscall p m) c.depth = _
    have ha : (BitVec.ofNat 32 (s.sys.cur + 4)).toNat = s.sys.cur + 4 := by
      rw [BitVec.toNat_ofNat]
      exact Nat.mod_eq_of_lt (by omega)
    rw [getpidValue_eq c hc _ s.sys.cur hcur hlow hesp, hmem _ (by omega), hm.mem _ (by omega) (by omega), hpid]
    apply BitVec.eq_of_toNat_eq
    rw [BitVec.toNat_setWidth, BitVec.toNat_setWidth, BitVec.toNat_ofNat]
    omega
  constructor
  · rw [← hval]
    exact (syscallTransparent p m hcdecl).2.2
  · intro a ha
    rw [int80_eq, exec_intrExit_mem, hcall, exec_movStack_mem, sysGetpid_esp]
    have hne : a ≠ (atSyscall p m).esp + 12 + 32 := by
      intro he
      have : a.toNat = (atSyscall p m).esp.toNat + 44 := by rw [he]; bv_omega
      omega
    have hout : ¬ (0 < ((atSyscall p m).esp - a).toNat ∧ ((atSyscall p m).esp - a).toNat ≤ c.frame) := by
      have hroom := hc.room
      bv_omega
    rw [Function.update_of_ne hne, sysGetpid_mem, if_neg hout]
    exact hmem a (by omega)

/-- Frames as a compiler without optimisation makes them. -/
def sampleGetpid : GetpidCode where
  depth := 24
  frame := 24
  below _ _ := 0
  ecx m := m.gen .ecx
  edx m := m.gen .edx
  eflags m := m.eflags

/-- The first process, with pid 2. -/
theorem getpid_returns_two : ∃ (p : Platform) (m : X86), m.gen .eax = 0 ∧ (int80 p m).gen .eax = 2 := by
  obtain ⟨es, s, hr, hu, hcur, hpid⟩ := userProcess_run
  obtain ⟨p, hp⟩ : ∃ p : Platform, p = { samplePlatform with
      esp0 := .ofNat 32 s.esp0, syscallTable := fun _ => sysGetpid sampleGetpid } := ⟨_, rfl⟩
  obtain ⟨m, hm⟩ : ∃ m : X86, m = { sampleContext with
      gen := fun _ => 0, mem := fun a => .ofNat 32 (s.sys.cpu.mem a.toNat) } := ⟨_, rfl⟩
  have hat : AtInt80 s p m := by
    constructor
    case ring =>
      rw [hm]
      show rpl 0x2b ≠ 0
      decide
    case esp0 => rw [hp]
    case mem =>
      intro a h1 h2
      rw [hm]
      dsimp only
      rw [BitVec.toNat_ofNat, Nat.mod_eq_of_lt (by omega)]
  have heax : m.gen .eax = 0 := by rw [hm]
  obtain ⟨hres, -⟩ := getpid_returns .debug 0xc0001500 bootCpu 0xc009e000 ⟨1, fun _ => 0, 31, true⟩ 0
    (by decide) (by decide) ⟨by decide, by decide⟩ es s hr hu 2 (by rw [hcur]; exact hpid) p m hat
    sampleGetpid ⟨by decide, by decide, by decide⟩ (by rw [hp]) heax
  refine ⟨p, m, heax, (congrFun hres.gen .eax).trans ?_⟩
  dsimp only
  rw [Function.update_self]
  rfl

end MyOs
