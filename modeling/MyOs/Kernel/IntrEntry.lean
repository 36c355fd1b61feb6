import Mathlib.Data.BitVec
import MyOs.Theory.Stack
import MyOs.Thread.Switch

/-!
# kernel/kernel.S: interrupt entry and exit

The processor delivers an interrupt, the stub of its vector pushes the rest of `struct intr_stack` and calls
the C handler, and `intr_exit` pops everything again.  The programs are lists of instructions, in the order
of the source; a handler is the effect of its whole call, from `call` to its `ret`.

    atHandler_stack             the stack when the stub calls the handler
    intrExit_resumes            what the pops of intr_exit read
    intrEntry_transparent_iff   the interrupted context comes back unless the processor pushed an error code
                                and the stub a zero on top of it
-/

namespace MyOs

abbrev Word32 := BitVec 32
abbrev Selector := BitVec 16

inductive Reg where
  | eax | ecx | edx | ebx | ebp | esi | edi
  deriving DecidableEq, Repr

inductive SegReg where
  | ds | es | fs | gs
  deriving DecidableEq, Repr

/-- The processor in protected mode with flat segments; an address of `mem` is the byte address of a word. -/
structure X86 where
  gen : Reg → Word32
  esp : Word32
  seg : SegReg → Selector
  cs : Selector
  ss : Selector
  eip : Word32
  eflags : Word32
  mem : Word32 → Word32

/-! ## Algorithm -/

def X86.push (m : X86) (w : Word32) : X86 :=
  { m with esp := m.esp - 4, mem := Function.update m.mem (m.esp - 4) w }

/-- A selector takes a whole word on the stack. -/
def X86.pushSel (m : X86) (s : Selector) : X86 := m.push (s.setWidth 32)

def X86.top (m : X86) : Word32 := m.mem m.esp

def X86.skip (m : X86) : X86 := { m with esp := m.esp + 4 }

def X86.popReg (m : X86) (r : Reg) : X86 := { m.skip with gen := Function.update m.gen r m.top }

def X86.popSeg (m : X86) (r : SegReg) : X86 :=
  { m.skip with seg := Function.update m.seg r (m.top.setWidth 16) }

/-- `pushad` pushes the `esp` from before its first push. -/
def X86.pushad (m : X86) : X86 :=
  let esp := m.esp
  let m := m.push (m.gen .eax)
  let m := m.push (m.gen .ecx)
  let m := m.push (m.gen .edx)
  let m := m.push (m.gen .ebx)
  let m := m.push esp
  let m := m.push (m.gen .ebp)
  let m := m.push (m.gen .esi)
  m.push (m.gen .edi)

/-- `popad` drops the word of `esp`. -/
def X86.popad (m : X86) : X86 :=
  let m := m.popReg .edi
  let m := m.popReg .esi
  let m := m.popReg .ebp
  let m := m.skip
  let m := m.popReg .ebx
  let m := m.popReg .edx
  let m := m.popReg .ecx
  m.popReg .eax

/-- The privilege level a code selector asks for. -/
def rpl (s : Selector) : Nat := s.toNat % 4

/-- `iretd`: the words of the stack pointer are popped only on the way to an outer ring. -/
def X86.iretd (m : X86) : X86 :=
  let cpl := rpl m.cs
  let m := { m.skip with eip := m.top }
  let m := { m.skip with cs := m.top.setWidth 16 }
  let m := { m.skip with eflags := m.top }
  if cpl < rpl m.cs then
    let esp := m.top
    let m := m.skip
    { m with esp := esp, ss := m.top.setWidth 16 }
  else m

/-- The instructions of the stubs. -/
inductive Instr where
  | nop
  | pushImm (w : Word32)
  | push (r : Reg)
  | pushSeg (r : SegReg)
  | popSeg (r : SegReg)
  | pushad
  | popad
  | movAl (b : BitVec 8)
  | out (port : Nat)
  /-- `call [idt_table + 4*v]` -/
  | callIdt (v : Nat)
  /-- `call [syscall_table + eax*4]` -/
  | callSyscall
  | addEsp (n : Word32)
  /-- `mov [esp + n], eax` -/
  | movStack (n : Word32)
  | iretd
  deriving DecidableEq, Repr

/-- What the stubs run on: the two tables of C functions, the addresses of the stubs, `esp0` of the task state
segment, and how `add` sets the flags. -/
structure Platform where
  idtTable : Nat → X86 → X86
  syscallTable : Word32 → X86 → X86
  entry : Nat → Word32
  esp0 : Word32
  addFlags : Word32 → Word32 → Word32 → Word32

def SELECTOR_K_CODE : Selector := 0x8
def SELECTOR_K_STACK : Selector := 0x10

def Instr.exec (p : Platform) (m : X86) : Instr → X86
  | .nop => m
  | .pushImm w => m.push w
  | .push r => m.push (m.gen r)
  | .pushSeg r => m.pushSel (m.seg r)
  | .popSeg r => m.popSeg r
  | .pushad => m.pushad
  | .popad => m.popad
  | .movAl b => { m with gen := Function.update m.gen .eax (((m.gen .eax) >>> 8 <<< 8) ||| b.setWidth 32) }
  | .out _ => m
  | .callIdt v => p.idtTable v m
  | .callSyscall => p.syscallTable (m.gen .eax) m
  | .addEsp n => { m with esp := m.esp + n, eflags := p.addFlags m.eflags m.esp n }
  | .movStack n => { m with mem := Function.update m.mem (m.esp + n) (m.gen .eax) }
  | .iretd => m.iretd

def exec (p : Platform) (prog : List Instr) (m : X86) : X86 := prog.foldl (Instr.exec p) m

def ERROR_CODE : Instr := .nop
def ZERO : Instr := .pushImm 0

/-- The pushes that save the context. -/
def pushContext : List Instr := [.pushSeg .ds, .pushSeg .es, .pushSeg .fs, .pushSeg .gs, .pushad]

def intrExit : List Instr :=
  [.addEsp 4, .popad, .popSeg .gs, .popSeg .fs, .popSeg .es, .popSeg .ds, .addEsp 4, .iretd]

/-- `VECTOR %1, %2` up to its call. -/
def vectorEntry (v : Nat) (second : Instr) : List Instr :=
  second :: pushContext ++ [.movAl 0x20, .out 0xa0, .out 0x20, .pushImm (.ofNat 32 v)]

/-- `VECTOR %1, %2`; the jump to `intr_exit` is its continuation. -/
def vector (v : Nat) (second : Instr) : List Instr := vectorEntry v second ++ .callIdt v :: intrExit

/-- The second operands in the table of vectors `0x00` to `0x2f`. -/
def vectorOperand (v : Nat) : Instr := if v = 0x1e then ERROR_CODE else ZERO

def syscallEntry : List Instr :=
  .pushImm 0 :: pushContext ++ [.pushImm 0x80, .push .edx, .push .ecx, .push .ebx]

def syscallHandler : List Instr := syscallEntry ++ .callSyscall :: .addEsp 12 :: .movStack 32 :: intrExit

/-! ## The processor -/

/-- The vectors with an error code. -/
def hasErrorCode (v : Nat) : Bool := v ∈ [8, 10, 11, 12, 13, 14, 17, 30]

/-- Delivery through an interrupt gate of the kernel: from an outer ring the stack of the task state segment is
taken and the old stack pointer pushed first.  `IF`, `TF`, `NT`, `RF` and `VM` are cleared. -/
def deliver (p : Platform) (v : Nat) (err : Word32) (m : X86) : X86 :=
  let m₀ := if rpl m.cs = 0 then m
    else ({ m with esp := p.esp0, ss := SELECTOR_K_STACK }.pushSel m.ss).push m.esp
  let m₁ := ((m₀.push m.eflags).pushSel m.cs).push m.eip
  let m₂ := if hasErrorCode v then m₁.push err else m₁
  { m₂ with cs := SELECTOR_K_CODE, eip := p.entry v, eflags := m.eflags &&& 0xfffcbcff }

/-- The state in which the stub of vector `v` calls the handler. -/
def atHandler (p : Platform) (v : Nat) (err : Word32) (m : X86) : X86 :=
  exec p (vectorEntry v (vectorOperand v)) (deliver p v err m)

/-- Interrupt `v` from delivery to the end of `intr_exit`. -/
def interrupt (p : Platform) (v : Nat) (err : Word32) (m : X86) : X86 :=
  exec p (vector v (vectorOperand v)) (deliver p v err m)

def atSyscall (p : Platform) (m : X86) : X86 := exec p syscallEntry (deliver p 0x80 0 m)

/-- `int 0x80`; the `eip` of `m` is that of the next instruction. -/
def int80 (p : Platform) (m : X86) : X86 := exec p syscallHandler (deliver p 0x80 0 m)

/-! ## What the entry code promises -/

/-- `struct intr_stack`. -/
structure IntrStack where
  vec_no : Word32
  edi : Word32
  esi : Word32
  ebp : Word32
  esp_dummy : Word32
  ebx : Word32
  edx : Word32
  ecx : Word32
  eax : Word32
  gs : Word32
  fs : Word32
  es : Word32
  ds : Word32
  err_code : Word32
  eip : Word32
  cs : Word32
  eflags : Word32
  esp : Word32
  ss : Word32

def IntrStack.words (f : IntrStack) : List Word32 :=
  [f.vec_no, f.edi, f.esi, f.ebp, f.esp_dummy, f.ebx, f.edx, f.ecx, f.eax, f.gs, f.fs, f.es, f.ds,
    f.err_code, f.eip, f.cs, f.eflags, f.esp, f.ss]

/-- The structure for context `m`, at address `a`: `pushad` stored the address of `gs`. -/
def contextFrame (v : Nat) (err : Word32) (m : X86) (a : Word32) : IntrStack where
  vec_no := .ofNat 32 v
  edi := m.gen .edi
  esi := m.gen .esi
  ebp := m.gen .ebp
  esp_dummy := a + 36
  ebx := m.gen .ebx
  edx := m.gen .edx
  ecx := m.gen .ecx
  eax := m.gen .eax
  gs := (m.seg .gs).setWidth 32
  fs := (m.seg .fs).setWidth 32
  es := (m.seg .es).setWidth 32
  ds := (m.seg .ds).setWidth 32
  err_code := err
  eip := m.eip
  cs := m.cs.setWidth 32
  eflags := m.eflags
  esp := m.esp
  ss := m.ss.setWidth 32

/-- The image at `a` is the structure; `esp` and `ss` are there only when the processor changed rings. -/
def LaidOut (v : Nat) (err : Word32) (m : X86) (mem : Word32 → Word32) (a : Word32) : Prop :=
  WordsAt 4 mem a ((contextFrame v err m a).words.take (if rpl m.cs = 0 then 17 else 19))

/-- `m'` continues `m`; memory apart. -/
structure Resumes (m m' : X86) : Prop where
  gen : m'.gen = m.gen
  esp : m'.esp = m.esp
  seg : m'.seg = m.seg
  cs : m'.cs = m.cs
  ss : m'.ss = m.ss
  eip : m'.eip = m.eip
  eflags : m'.eflags = m.eflags

/-- A call by the C convention: `nargs` words of arguments belong to the callee, the frame of the caller above
them does not. -/
structure Cdecl (nargs : Nat) (m m' : X86) : Prop where
  esp : m'.esp = m.esp
  saved : ∀ r ∈ [Reg.ebx, .ebp, .esi, .edi], m'.gen r = m.gen r
  seg : m'.seg = m.seg
  cs : m'.cs = m.cs
  ss : m'.ss = m.ss
  frame : ∀ i, nargs ≤ i → i < nargs + sizeofIntrStack / 4 →
    m'.mem (m.esp + i • (4 : Word32)) = m.mem (m.esp + i • (4 : Word32))

/-- The interrupt `v` leaves no trace in the interrupted context, and the handler finds it in a
`struct intr_stack`. -/
def IntrTransparent (p : Platform) (v : Nat) (err : Word32) (m : X86) : Prop :=
  LaidOut v (if hasErrorCode v then err else 0) m (atHandler p v err m).mem (atHandler p v err m).esp ∧
    Resumes m (interrupt p v err m)

/-- The system call gets `ebx`, `ecx` and `edx`, above them lies the structure, and only `eax` changes. -/
def SyscallTransparent (p : Platform) (m : X86) : Prop :=
  WordsAt 4 (atSyscall p m).mem (atSyscall p m).esp [m.gen .ebx, m.gen .ecx, m.gen .edx] ∧
    LaidOut 0x80 0 m (atSyscall p m).mem ((atSyscall p m).esp + 12) ∧
    Resumes { m with
      gen := Function.update m.gen .eax ((p.syscallTable (m.gen .eax) (atSyscall p m)).gen .eax) }
      (int80 p m)

/-! ## Pushes -/

/-- The words of a stack this shallow have different addresses. -/
theorem word_apart : Apart (4 : Word32) 64 := by
  intro k h0 hk he
  have hn := congrArg BitVec.toNat he
  rw [nsmul_eq_mul, BitVec.toNat_mul] at hn
  simp only [BitVec.natCast_eq_ofNat, BitVec.toNat_ofNat, show BitVec.toNat (4 : Word32) = 4 from rfl,
    show BitVec.toNat (0 : Word32) = 0 from rfl] at hn
  omega

def X86.pushes (m : X86) (ws : List Word32) : X86 := ws.foldl X86.push m

section
variable (m : X86) (ws : List Word32)

theorem X86.pushes_fields : (m.pushes ws).gen = m.gen ∧ (m.pushes ws).seg = m.seg ∧ (m.pushes ws).cs = m.cs ∧
    (m.pushes ws).ss = m.ss ∧ (m.pushes ws).eflags = m.eflags := by
  induction ws generalizing m with
  | nil => exact ⟨rfl, rfl, rfl, rfl, rfl⟩
  | cons w ws ih => exact ih (m.push w)

@[simp] theorem X86.pushes_gen : (m.pushes ws).gen = m.gen := (m.pushes_fields ws).1
@[simp] theorem X86.pushes_seg : (m.pushes ws).seg = m.seg := (m.pushes_fields ws).2.1
@[simp] theorem X86.pushes_cs : (m.pushes ws).cs = m.cs := (m.pushes_fields ws).2.2.1
@[simp] theorem X86.pushes_ss : (m.pushes ws).ss = m.ss := (m.pushes_fields ws).2.2.2.1
end

theorem X86.pushes_stack {top : Word32} (us : List Word32) :
    ∀ {m : X86} {ws : List Word32}, StackIs 4 top m.mem m.esp ws → us.length + ws.length < 64 →
      StackIs 4 top (m.pushes us).mem (m.pushes us).esp (us.reverse ++ ws) := by
  induction us with
  | nil => intro m ws h _; exact h
  | cons u us ih =>
    intro m ws h hn
    simp only [List.length_cons] at hn
    have hp : StackIs 4 top (m.push u).mem (m.push u).esp (u :: ws) := h.push word_apart (by omega)
    rw [List.reverse_cons, List.append_assoc, List.singleton_append]
    exact ih hp (by simp only [List.length_cons]; omega)

theorem exec_append (p : Platform) (a b : List Instr) (m : X86) :
    exec p (a ++ b) m = exec p b (exec p a m) := List.foldl_append

theorem exec_cons (p : Platform) (i : Instr) (a : List Instr) (m : X86) :
    exec p (i :: a) m = exec p a (i.exec p m) := rfl

/-- What `pushContext` leaves on the stack; `x` is the word of `esp`. -/
def contextWords (m : X86) (x : Word32) : List Word32 :=
  [m.gen .edi, m.gen .esi, m.gen .ebp, x, m.gen .ebx, m.gen .edx, m.gen .ecx, m.gen .eax,
    (m.seg .gs).setWidth 32, (m.seg .fs).setWidth 32, (m.seg .es).setWidth 32, (m.seg .ds).setWidth 32]

theorem contextWords_length (m : X86) (x : Word32) : (contextWords m x).length = 12 := rfl

theorem exec_pushContext (p : Platform) (m : X86) :
    exec p pushContext m = m.pushes (contextWords m (m.esp - 4 - 4 - 4 - 4)).reverse := rfl

theorem pushContext_stack (p : Platform) {top : Word32} {m : X86} {ws : List Word32}
    (h : StackIs 4 top m.mem m.esp ws) (hn : ws.length ≤ 8) :
    StackIs 4 top (exec p pushContext m).mem (exec p pushContext m).esp
      (contextWords m ((exec p pushContext m).esp + 32) ++ ws) := by
  have hesp : (exec p pushContext m).esp + 32 = m.esp - 4 - 4 - 4 - 4 := by
    show m.esp - 4 - 4 - 4 - 4 - 4 - 4 - 4 - 4 - 4 - 4 - 4 - 4 + 32 = _
    bv_omega
  rw [hesp, exec_pushContext]
  have hp := X86.pushes_stack (contextWords m (m.esp - 4 - 4 - 4 - 4)).reverse h (by
    simp only [contextWords, List.length_reverse, List.length_cons, List.length_nil]
    omega)
  rw [List.reverse_reverse] at hp
  exact hp

/-! ## Delivery -/

/-- Where the frame of the processor ends. -/
def stackTop (p : Platform) (m : X86) : Word32 := if rpl m.cs = 0 then m.esp else p.esp0

def cpuFrame (m : X86) : List Word32 :=
  m.eip :: m.cs.setWidth 32 :: m.eflags :: if rpl m.cs = 0 then [] else [m.esp, m.ss.setWidth 32]

def errorWords (v : Nat) (err : Word32) : List Word32 := if hasErrorCode v then [err] else []

/-- The stub's own word. -/
def dummyWords (v : Nat) : List Word32 := if v = 0x1e then [] else [0]

theorem exec_vectorOperand (p : Platform) (v : Nat) (m : X86) :
    (vectorOperand v).exec p m = m.pushes (dummyWords v) := by
  unfold vectorOperand dummyWords
  split <;> rfl

theorem dummyWords_reverse (v : Nat) : (dummyWords v).reverse = dummyWords v := by
  unfold dummyWords
  split <;> rfl

theorem dummyWords_length (v : Nat) : (dummyWords v).length ≤ 1 := by
  unfold dummyWords
  split <;> simp

section Delivery
variable (p : Platform) (v : Nat) (err : Word32) (m : X86)

theorem deliver_fields : (deliver p v err m).gen = m.gen ∧ (deliver p v err m).seg = m.seg ∧
    (deliver p v err m).cs = SELECTOR_K_CODE ∧
    (deliver p v err m).ss = if rpl m.cs = 0 then m.ss else SELECTOR_K_STACK := by
  unfold deliver
  by_cases hr : rpl m.cs = 0 <;> cases hasErrorCode v <;> simp [hr, X86.push, X86.pushSel]

theorem cpuFrame_length : (cpuFrame m).length ≤ 5 := by
  unfold cpuFrame
  split <;> simp

theorem frame_length : (errorWords v err ++ cpuFrame m).length ≤ 6 := by
  have := cpuFrame_length m
  unfold errorWords
  cases hasErrorCode v <;> simp <;> omega

theorem deliver_stack : StackIs 4 (stackTop p m) (deliver p v err m).mem (deliver p v err m).esp
    (errorWords v err ++ cpuFrame m) := by
  have hlen : (errorWords v err ++ cpuFrame m).reverse.length + ([] : List Word32).length < 64 := by
    have := frame_length v err m
    rw [List.length_reverse, List.length_nil]
    omega
  have base : ∀ m₀ : X86, StackIs 4 m₀.esp m₀.mem m₀.esp [] := fun _ => StackIs.nil
  by_cases hr : rpl m.cs = 0
  · have h := X86.pushes_stack (errorWords v err ++ cpuFrame m).reverse (base m) hlen
    rw [List.reverse_reverse, List.append_nil] at h
    unfold stackTop
    rw [if_pos hr]
    revert h
    unfold deliver errorWords cpuFrame
    cases hasErrorCode v <;> simp only [if_pos hr] <;> exact id
  · have h := X86.pushes_stack (errorWords v err ++ cpuFrame m).reverse
      (base { m with esp := p.esp0, ss := SELECTOR_K_STACK }) hlen
    rw [List.reverse_reverse, List.append_nil] at h
    unfold stackTop
    rw [if_neg hr]
    revert h
    unfold deliver errorWords cpuFrame
    cases hasErrorCode v <;> simp only [if_neg hr] <;> exact id

/-- The registers are saved when the stub writes `al`. -/
def atPushes : X86 := exec p pushContext ((deliver p v err m).pushes (dummyWords v))

theorem atHandler_fields : (atHandler p v err m).esp = (atPushes p v err m).esp - 4 ∧
    (atHandler p v err m).mem =
      Function.update (atPushes p v err m).mem ((atPushes p v err m).esp - 4) (.ofNat 32 v) ∧
    (atHandler p v err m).cs = (atPushes p v err m).cs ∧
    (atHandler p v err m).ss = (atPushes p v err m).ss := by
  unfold atHandler vectorEntry atPushes
  rw [List.cons_append, exec_cons, exec_append, exec_vectorOperand]
  generalize exec p pushContext _ = d
  exact ⟨rfl, rfl, rfl, rfl⟩

/-- The stack when the stub calls the handler. -/
theorem atHandler_stack : StackIs 4 (stackTop p m) (atHandler p v err m).mem (atHandler p v err m).esp
    (.ofNat 32 v :: contextWords m ((atHandler p v err m).esp + 36) ++
      (dummyWords v ++ (errorWords v err ++ cpuFrame m))) := by
  obtain ⟨hgen, hseg, -, -⟩ := deliver_fields p v err m
  have hlen := frame_length v err m
  have h0 := deliver_stack p v err m
  obtain ⟨hesp, hmem, -, -⟩ := atHandler_fields p v err m
  have hx : (atPushes p v err m).esp - 4 + 36 = (atPushes p v err m).esp + 32 := by bv_omega
  rw [hesp, hmem, hx]
  unfold atPushes
  generalize deliver p v err m = d at *
  have hd := dummyWords_length v
  have h1 := X86.pushes_stack (dummyWords v) h0 (by omega)
  rw [dummyWords_reverse] at h1
  have h2 := pushContext_stack p h1 (by rw [List.length_append]; omega)
  have hwords : ∀ x, contextWords (d.pushes (dummyWords v)) x = contextWords m x := by
    intro x
    unfold contextWords
    rw [X86.pushes_gen, X86.pushes_seg, hgen, hseg]
  rw [hwords] at h2
  refine h2.push word_apart ?_
  simp only [contextWords_length, List.length_append] at hlen ⊢
  omega

end Delivery

/-! ## Pops -/

@[simp] theorem selector_roundtrip (s : Selector) : (s.setWidth 32).setWidth 16 = s := by
  rw [BitVec.setWidth_setWidth_of_le s (by omega), BitVec.setWidth_eq]

section Pops
variable {top : Word32} {m : X86} {ws : List Word32}

/-- `intr_exit` up to `iretd`: the registers come from the stack, `esp` is where `iretd` expects it. -/
theorem exec_intrExit (p : Platform) {c : X86} {x w : Word32}
    (h : StackIs 4 top m.mem (m.esp + 4) (contextWords c x ++ w :: ws)) :
    ∃ m' : X86, exec p intrExit m = m'.iretd ∧ StackIs 4 top m'.mem m'.esp ws ∧
      m'.gen = c.gen ∧ m'.seg = c.seg ∧ m'.cs = m.cs ∧ m'.ss = m.ss := by
  unfold contextWords at h
  simp only [List.cons_append, List.nil_append] at h
  obtain ⟨edi, h⟩ := h.pop
  obtain ⟨esi, h⟩ := h.pop
  obtain ⟨ebp, h⟩ := h.pop
  obtain ⟨-, h⟩ := h.pop
  obtain ⟨ebx, h⟩ := h.pop
  obtain ⟨edx, h⟩ := h.pop
  obtain ⟨ecx, h⟩ := h.pop
  obtain ⟨eax, h⟩ := h.pop
  obtain ⟨gs, h⟩ := h.pop
  obtain ⟨fs, h⟩ := h.pop
  obtain ⟨es, h⟩ := h.pop
  obtain ⟨ds, h⟩ := h.pop
  obtain ⟨-, h⟩ := h.pop
  have hgen : (exec p intrExit.dropLast m).gen = c.gen := by
    funext r
    cases r
    · exact eax
    · exact ecx
    · exact edx
    · exact ebx
    · exact ebp
    · exact esi
    · exact edi
  have sel : ∀ {a : Word32} {r : SegReg}, m.mem a = (c.seg r).setWidth 32 →
      (m.mem a).setWidth 16 = c.seg r := by
    intro a r ha
    rw [ha, selector_roundtrip]
  have hseg : (exec p intrExit.dropLast m).seg = c.seg := by
    funext r
    cases r
    · exact sel ds
    · exact sel es
    · exact sel fs
    · exact sel gs
  exact ⟨exec p intrExit.dropLast m, rfl, h, hgen, hseg, rfl, rfl⟩

theorem iretd_inner {eip cs eflags : Word32} (h : StackIs 4 top m.mem m.esp (eip :: cs :: eflags :: ws))
    (hr : ¬ rpl m.cs < rpl (cs.setWidth 16)) :
    ∃ sp, m.iretd = { m with eip := eip, cs := cs.setWidth 16, eflags := eflags, esp := sp } ∧
      StackIs 4 top m.mem sp ws := by
  obtain ⟨he, h⟩ := h.pop
  obtain ⟨hc, h⟩ := h.pop
  obtain ⟨hf, h⟩ := h.pop
  refine ⟨_, ?_, h⟩
  unfold X86.iretd X86.skip X86.top
  simp only [he, hc, hf]
  rw [if_neg hr]

theorem iretd_outer {eip cs eflags esp ss : Word32}
    (h : StackIs 4 top m.mem m.esp (eip :: cs :: eflags :: esp :: ss :: ws))
    (hr : rpl m.cs < rpl (cs.setWidth 16)) :
    m.iretd = { m with
      eip := eip, cs := cs.setWidth 16, eflags := eflags, esp := esp, ss := ss.setWidth 16 } := by
  obtain ⟨he, h⟩ := h.pop
  obtain ⟨hc, h⟩ := h.pop
  obtain ⟨hf, h⟩ := h.pop
  obtain ⟨hp, h⟩ := h.pop
  obtain ⟨hs, -⟩ := h.pop
  unfold X86.iretd X86.skip X86.top
  simp only [he, hc, hf, hp, hs]
  rw [if_pos hr]

end Pops

/-! ## Interrupts -/

/-- A frame in which exactly one word lies between the context and the frame of the processor. -/
theorem intrExit_resumes (p : Platform) {c m : X86} {x w : Word32}
    (h : StackIs 4 (stackTop p c) m.mem (m.esp + 4) (contextWords c x ++ w :: cpuFrame c))
    (hcs : m.cs = SELECTOR_K_CODE) (hss : rpl c.cs = 0 → m.ss = c.ss) :
    Resumes c (exec p intrExit m) := by
  obtain ⟨m', heq, hs, hgen, hseg, hcs', hss'⟩ := exec_intrExit p h
  rw [heq]
  unfold cpuFrame at hs
  by_cases hr : rpl c.cs = 0
  · rw [if_pos hr] at hs
    have hin : ¬ rpl m'.cs < rpl ((c.cs.setWidth 32).setWidth 16) := by
      rw [selector_roundtrip, hr]
      omega
    obtain ⟨sp', heq', hs'⟩ := iretd_inner hs hin
    rw [heq']
    refine ⟨hgen, ?_, hseg, selector_roundtrip c.cs, hss'.trans (hss hr), rfl, rfl⟩
    have htop := hs'.sp_eq
    unfold stackTop at htop
    rw [if_pos hr] at htop
    exact htop
  · rw [if_neg hr] at hs
    have hout : rpl m'.cs < rpl ((c.cs.setWidth 32).setWidth 16) := by
      rw [selector_roundtrip, hcs', hcs]
      exact Nat.pos_of_ne_zero hr
    rw [iretd_outer hs hout]
    exact ⟨hgen, rfl, hseg, selector_roundtrip c.cs, selector_roundtrip c.ss, rfl, rfl⟩

/-- What a call leaves of the caller's frame, above the arguments. -/
theorem Cdecl.stack {nargs : Nat} {m m' : X86} (h : Cdecl nargs m m') {top : Word32} {us ws : List Word32}
    (hu : us.length = nargs) (hs : StackIs 4 top m.mem m.esp (us ++ ws)) (hw : ws.length ≤ 19) :
    StackIs 4 top m'.mem (m'.esp + nargs • (4 : Word32)) ws := by
  subst hu
  rw [h.esp]
  refine hs.frame fun i h1 h2 => h.frame i h1 ?_
  have : sizeofIntrStack / 4 = 19 := rfl
  omega

theorem laidOut_of_words {v : Nat} {code : Word32} {m : X86} {mem : Word32 → Word32} {a : Word32}
    (h : WordsAt 4 mem a (.ofNat 32 v :: contextWords m (a + 36) ++ code :: cpuFrame m)) :
    LaidOut v code m mem a := by
  unfold LaidOut
  unfold cpuFrame at h
  by_cases hr : rpl m.cs = 0
  · rw [if_pos hr] at h ⊢
    exact h
  · rw [if_neg hr] at h ⊢
    exact h

/-- The part of the layout that the processor pushed. -/
theorem LaidOut.cpuWords {v : Nat} {err : Word32} {m : X86} {mem : Word32 → Word32} {a : Word32}
    (h : LaidOut v err m mem a) :
    WordsAt 4 mem (a + 13 • (4 : Word32)) [err, m.eip, m.cs.setWidth 32, m.eflags] := by
  have hsplit : ∀ rest, WordsAt 4 mem a ((contextFrame v err m a).words.take 13 ++
      ([err, m.eip, m.cs.setWidth 32, m.eflags] ++ rest)) →
      WordsAt 4 mem (a + 13 • (4 : Word32)) [err, m.eip, m.cs.setWidth 32, m.eflags] := by
    intro rest hw
    exact (wordsAt_append.mp (wordsAt_append.mp hw).2).1
  unfold LaidOut at h
  by_cases hr : rpl m.cs = 0
  · rw [if_pos hr] at h
    exact hsplit [] h
  · rw [if_neg hr] at h
    exact hsplit [m.esp, m.ss.setWidth 32] h

section Interrupts
variable (p : Platform) (v : Nat) (err : Word32) (m : X86)

theorem interrupt_eq : interrupt p v err m = exec p intrExit (p.idtTable v (atHandler p v err m)) := by
  unfold interrupt vector atHandler
  rw [exec_append, exec_cons]
  simp only [Instr.exec]

theorem atHandler_cs : (atHandler p v err m).cs = SELECTOR_K_CODE := by
  rw [(atHandler_fields p v err m).2.2.1]
  unfold atPushes
  rw [exec_pushContext, X86.pushes_cs, X86.pushes_cs]
  exact (deliver_fields p v err m).2.2.1

theorem atHandler_ss (hr : rpl m.cs = 0) : (atHandler p v err m).ss = m.ss := by
  rw [(atHandler_fields p v err m).2.2.2]
  unfold atPushes
  rw [exec_pushContext, X86.pushes_ss, X86.pushes_ss, (deliver_fields p v err m).2.2.2, if_pos hr]

/-- The stack when the handler is back. -/
theorem handled_stack (hc : Cdecl 1 (atHandler p v err m) (p.idtTable v (atHandler p v err m))) :
    StackIs 4 (stackTop p m) (p.idtTable v (atHandler p v err m)).mem
      ((p.idtTable v (atHandler p v err m)).esp + 4)
      (contextWords m ((atHandler p v err m).esp + 36) ++
        (dummyWords v ++ (errorWords v err ++ cpuFrame m))) := by
  have hs := atHandler_stack p v err m
  rw [List.cons_append, ← List.singleton_append] at hs
  have hd := dummyWords_length v
  have hf := frame_length v err m
  have hs' := hc.stack List.length_singleton hs (by
    simp only [contextWords_length, List.length_append] at hf ⊢
    omega)
  rw [one_nsmul] at hs'
  exact hs'

/-- The stub's word is the only one the processor's frame does not have. -/
theorem intrTransparent_of_one (hc : Cdecl 1 (atHandler p v err m) (p.idtTable v (atHandler p v err m)))
    (hw : dummyWords v ++ errorWords v err = [if hasErrorCode v then err else 0]) :
    IntrTransparent p v err m := by
  constructor
  · have hl := (atHandler_stack p v err m).words
    rw [← List.append_assoc (dummyWords v), hw, List.singleton_append] at hl
    exact laidOut_of_words hl
  · have hs := handled_stack p v err m hc
    rw [← List.append_assoc (dummyWords v), hw, List.singleton_append] at hs
    rw [interrupt_eq]
    refine intrExit_resumes p hs ?_ ?_
    · rw [hc.cs, atHandler_cs]
    · intro hr
      rw [hc.ss, atHandler_ss p v err m hr]

/-- The processor pushed an error code and the stub a zero on top of it. -/
theorem not_intrTransparent_of_two (hc : Cdecl 1 (atHandler p v err m) (p.idtTable v (atHandler p v err m)))
    (hw : dummyWords v ++ errorWords v err = [0, err]) (hv : hasErrorCode v = true) :
    ¬ IntrTransparent p v err m := by
  rintro ⟨hl, hres⟩
  have hs := (atHandler_stack p v err m).words
  have hh := handled_stack p v err m hc
  rw [← List.append_assoc (dummyWords v), hw] at hs hh
  rw [if_pos hv] at hl
  -- the stub's zero is where the layout has the error code, and so on upwards
  obtain ⟨herr, heip, hcs, -⟩ := hl.cpuWords
  obtain ⟨h0, h1, h2, -⟩ := (wordsAt_append.mp hs).2
  have herr0 : err = 0 := herr.symm.trans h0
  have heip0 : m.eip = 0 := heip.symm.trans (h1.trans herr0)
  have hcs0 : m.cs = 0 := by
    rw [← selector_roundtrip m.cs, ← hcs]
    exact congrArg (BitVec.setWidth 16) (h2.trans heip0)
  -- so the interrupted code ran in ring 0, and one word stays on its stack
  obtain ⟨m', heq, hm', -, -, hcs', -⟩ := exec_intrExit p hh
  have hr : rpl m.cs = 0 := by
    rw [hcs0]
    rfl
  have hin : ¬ rpl m'.cs < rpl (m.eip.setWidth 16) := by
    rw [heip0]
    exact Nat.not_lt_zero _
  obtain ⟨sp, heq', hm''⟩ := iretd_inner hm' hin
  have hesp := hres.esp
  rw [interrupt_eq, heq, heq'] at hesp
  have hd := hm''.depth
  unfold stackTop at hd
  rw [if_pos hr, if_pos hr, ← hesp] at hd
  exact word_apart 1 (by decide) (by decide) (add_eq_left.mp hd)

end Interrupts

/-! ## System calls -/

section Syscalls
variable (p : Platform) (m : X86)

/-- The registers are saved, the arguments not yet pushed. -/
def atSyscallPushes : X86 := exec p pushContext ((deliver p 0x80 0 m).pushes [0])

theorem atSyscallPushes_fields : (atSyscallPushes p m).gen = m.gen ∧
    (atSyscallPushes p m).cs = SELECTOR_K_CODE ∧
    (atSyscallPushes p m).ss = if rpl m.cs = 0 then m.ss else SELECTOR_K_STACK := by
  obtain ⟨hgen, -, hcs, hss⟩ := deliver_fields p 0x80 0 m
  unfold atSyscallPushes
  rw [exec_pushContext]
  refine ⟨?_, ?_, ?_⟩
  · rw [X86.pushes_gen, X86.pushes_gen, hgen]
  · rw [X86.pushes_cs, X86.pushes_cs, hcs]
  · rw [X86.pushes_ss, X86.pushes_ss, hss]

theorem atSyscall_eq : atSyscall p m =
    (atSyscallPushes p m).pushes [0x80, m.gen .edx, m.gen .ecx, m.gen .ebx] := by
  rw [← (atSyscallPushes_fields p m).1]
  unfold atSyscall syscallEntry
  rw [List.cons_append, exec_cons, exec_append]
  rfl

theorem atSyscall_stack : StackIs 4 (stackTop p m) (atSyscall p m).mem (atSyscall p m).esp
    ([m.gen .ebx, m.gen .ecx, m.gen .edx] ++
      (0x80 :: contextWords m ((atSyscall p m).esp + 12 + 36) ++ 0 :: cpuFrame m)) := by
  obtain ⟨hgen, hseg, -, -⟩ := deliver_fields p 0x80 0 m
  have hlen := cpuFrame_length m
  have h0 : StackIs 4 (stackTop p m) (deliver p 0x80 0 m).mem (deliver p 0x80 0 m).esp (cpuFrame m) :=
    deliver_stack p 0x80 0 m
  have h1 := X86.pushes_stack [0] h0 (by simp only [List.length_cons, List.length_nil]; omega)
  have h2 := pushContext_stack p h1 (by simp only [List.length_append, List.length_reverse,
    List.length_cons, List.length_nil]; omega)
  have hwords : ∀ x, contextWords ((deliver p 0x80 0 m).pushes [0]) x = contextWords m x := by
    intro x
    unfold contextWords
    rw [X86.pushes_gen, X86.pushes_seg, hgen, hseg]
  have hx : (atSyscall p m).esp + 12 + 36 = (atSyscallPushes p m).esp + 32 := by
    rw [atSyscall_eq]
    show (atSyscallPushes p m).esp - 4 - 4 - 4 - 4 + 12 + 36 = _
    bv_omega
  rw [hwords] at h2
  rw [hx, atSyscall_eq]
  have h3 := X86.pushes_stack [0x80, m.gen .edx, m.gen .ecx, m.gen .ebx] h2 (by
    simp only [contextWords_length, List.length_append, List.length_reverse, List.length_cons,
      List.length_nil]
    omega)
  exact h3

theorem atSyscall_gen : (atSyscall p m).gen = m.gen := by
  rw [atSyscall_eq, X86.pushes_gen]
  exact (atSyscallPushes_fields p m).1

theorem atSyscall_cs : (atSyscall p m).cs = SELECTOR_K_CODE := by
  rw [atSyscall_eq, X86.pushes_cs]
  exact (atSyscallPushes_fields p m).2.1

theorem atSyscall_ss (hr : rpl m.cs = 0) : (atSyscall p m).ss = m.ss := by
  rw [atSyscall_eq, X86.pushes_ss, (atSyscallPushes_fields p m).2.2, if_pos hr]

/-- The call is the one that `eax` selects. -/
def syscalled : X86 := p.syscallTable (m.gen .eax) (atSyscall p m)

theorem int80_eq : int80 p m =
    exec p intrExit (exec p [.addEsp 12, .movStack 32] (syscalled p m)) := by
  unfold syscalled
  rw [← atSyscall_gen]
  unfold int80 syscallHandler atSyscall
  rw [exec_append]
  simp only [exec_cons, Instr.exec]
  rfl

/-- The value of the call goes to the word that `popad` loads into `eax`. -/
theorem syscalled_stack (hc : Cdecl 3 (atSyscall p m) (syscalled p m)) :
    StackIs 4 (stackTop p m)
      (Function.update (syscalled p m).mem ((syscalled p m).esp + 12 + 32) ((syscalled p m).gen .eax))
      ((syscalled p m).esp + 12)
      (0x80 :: contextWords { m with gen := Function.update m.gen .eax ((syscalled p m).gen .eax) }
        ((atSyscall p m).esp + 12 + 36) ++ 0 :: cpuFrame m) := by
  have hlen := cpuFrame_length m
  generalize hx : (atSyscall p m).esp + 12 + 36 = x
  have h0 := hc.stack rfl (atSyscall_stack p m) (by
    simp only [contextWords_length, List.length_append, List.length_cons]
    omega)
  rw [hx] at h0
  have hs : StackIs 4 (stackTop p m) (syscalled p m).mem ((syscalled p m).esp + 12)
      ((0x80 :: (contextWords m x).take 7) ++ m.gen .eax :: ((contextWords m x).drop 8 ++ 0 :: cpuFrame m)) := h0
  refine hs.poke word_apart ?_ 8 rfl
  simp only [List.length_cons, List.length_append, List.length_take, List.length_drop, contextWords_length]
  omega

/-- `int 0x80` is transparent up to `eax`. -/
theorem syscallTransparent (hc : Cdecl 3 (atSyscall p m) (syscalled p m)) : SyscallTransparent p m := by
  have hw := (atSyscall_stack p m).words
  refine ⟨(wordsAt_append.mp hw).1, laidOut_of_words (wordsAt_append.mp hw).2, ?_⟩
  · rw [int80_eq]
    refine intrExit_resumes p (syscalled_stack p m hc).pop.2 ?_ ?_
    · exact hc.cs.trans (atSyscall_cs p m)
    · intro hr
      exact hc.ss.trans (atSyscall_ss p m hr)

end Syscalls

/-- A function that keeps to the C convention whatever the state it is called in. -/
def ObeysCdecl (nargs : Nat) (f : X86 → X86) : Prop := ∀ m, Cdecl nargs m (f m)

/-- **When an interrupt is transparent.**  Over every interrupted context, with every handler: exactly for the
vectors that are none of 8, 10 to 14 and 17.  A system call always is, up to the value it returns. -/
theorem intrEntry_transparent_iff (p : Platform) (err : Word32) (m : X86) :
    (∀ v, v < 0x30 → ObeysCdecl 1 (p.idtTable v) →
      (IntrTransparent p v err m ↔ v ∉ [8, 10, 11, 12, 13, 14, 17])) ∧
    (ObeysCdecl 3 (p.syscallTable (m.gen .eax)) → SyscallTransparent p m) := by
  refine ⟨fun v hv hc => ?_, fun hc => syscallTransparent p m (hc _)⟩
  constructor
  · intro ht hmem
    have hcode : hasErrorCode v = true ∧ v ≠ 0x1e := by
      simp only [List.mem_cons, List.not_mem_nil, or_false] at hmem
      rcases hmem with rfl | rfl | rfl | rfl | rfl | rfl | rfl <;> decide
    refine not_intrTransparent_of_two p v err m (hc _) ?_ hcode.1 ht
    unfold dummyWords errorWords
    rw [if_neg hcode.2, if_pos hcode.1]
    rfl
  · intro hmem
    refine intrTransparent_of_one p v err m (hc _) ?_
    unfold dummyWords errorWords
    by_cases he : v = 0x1e
    · subst he
      rfl
    · have hcode : hasErrorCode v = false := by
        simp only [hasErrorCode, List.mem_cons, List.not_mem_nil, or_false, decide_eq_false_iff_not] at hmem ⊢
        omega
      rw [if_neg he, hcode]
      rfl

/-- Handlers that return 5 in `eax` and clobber `ecx`. -/
def samplePlatform : Platform where
  idtTable _ m := { m with gen := Function.update (Function.update m.gen .eax 5) .ecx 0 }
  syscallTable _ m := { m with gen := Function.update (Function.update m.gen .eax 5) .ecx 0 }
  entry v := 0xc0001000 + 64 * .ofNat 32 v
  esp0 := 0xc009f000
  addFlags f _ _ := f

/-- A user process. -/
def sampleContext : X86 where
  gen _ := 1
  esp := 0xbfffe000
  seg _ := 0x33
  cs := 0x2b
  ss := 0x33
  eip := 0x8048000
  eflags := 0x202
  mem _ := 0

theorem sample_obeysCdecl (nargs v : Nat) (w : Word32) : ObeysCdecl nargs (samplePlatform.idtTable v) ∧
    ObeysCdecl nargs (samplePlatform.syscallTable w) := by
  constructor
  all_goals
    intro m
    refine ⟨rfl, ?_, rfl, rfl, rfl, fun _ _ _ => rfl⟩
    intro r hr
    simp only [List.mem_cons, List.not_mem_nil, or_false] at hr
    rcases hr with rfl | rfl | rfl | rfl <;> rfl

theorem intrEntry_transparent_iff_user : IntrTransparent samplePlatform 0x20 0 sampleContext ∧
    ¬ IntrTransparent samplePlatform 13 0 sampleContext ∧ SyscallTransparent samplePlatform sampleContext := by
  obtain ⟨hi, hs⟩ := intrEntry_transparent_iff samplePlatform 0 sampleContext
  refine ⟨(hi 0x20 (by decide) (sample_obeysCdecl 1 _ 0).1).mpr (by decide), fun h => ?_,
    hs (sample_obeysCdecl 3 0 _).2⟩
  exact (hi 13 (by decide) (sample_obeysCdecl 1 _ 0).1).mp h (by decide)

/-- A page fault of the process, with error code 4: the zero of the stub is popped in place of the error code,
and the process resumes at address 4. -/
theorem pageFault_resumes_wrong : ObeysCdecl 1 (samplePlatform.idtTable 14) ∧
    (interrupt samplePlatform 14 4 sampleContext).eip = 4 ∧
    ¬ IntrTransparent samplePlatform 14 4 sampleContext := by
  have heip : (interrupt samplePlatform 14 4 sampleContext).eip = 4 := by decide +kernel
  refine ⟨(sample_obeysCdecl 1 14 0).1, heip, fun h => ?_⟩
  have := h.2.eip
  rw [heip] at this
  exact absurd this (by decide)

end MyOs
