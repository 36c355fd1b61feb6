import MyOs.Thread.Lock
import Mathlib.Logic.Function.Basic

/-!
# The kernel as its threads share it

The globals of thread.c, sync.c, ioqueue.c, console.c and timer.c, and for every thread the kernel calls
it is in the middle of.  One CPU runs one thread at a time, so a state is the running thread, the interrupt
flag, the shared data, and a suspended call stack per thread.

The calls nest in a fixed order, so a call stack is a record (`Ctx`) and not a list: on top the way the
thread left the CPU (`intr_exit`, `kernel_thread` or `thread_block`), below it `sema_down`, below it
`lock_acquire` or `lock_release`, and at the bottom the function of thread.c, ioqueue.c or console.c that
called them.

Statements that run with interrupts on are steps of their own, so the timer may fire between any two of
them; what the code does between `intr_disable` and `intr_set_status` is one step.
-/

namespace MyOs

/-- `enum task_status`. -/
inductive TaskStatus where
  | running
  | ready
  | blocked
  | waiting
  | hanging
  | died
  deriving DecidableEq, Repr

/-- The scheduling fields of `struct task_struct`. -/
structure Task where
  pid : Nat
  status : TaskStatus
  name : List Char
  priority : Nat
  ticks : Nat
  elapsedTicks : Nat
  stackMagic : Nat
  deriving DecidableEq, Repr

/-- A PCB page as `memset` leaves it (`TASK_RUNNING` is 0). -/
def zeroTask : Task :=
  { pid := 0, status := .running, name := [], priority := 0, ticks := 0, elapsedTicks := 0, stackMagic := 0 }

/-- A `struct ioqueue`, named by its address. -/
abbrev IoqId := Nat

/-- The locks of the kernel: `pid_lock`, `console_lock`, the lock of an ioqueue, and any other. -/
inductive LockId where
  | pidLock
  | consoleLock
  | ioqLock (q : IoqId)
  | lock (n : Nat)
  deriving DecidableEq, Repr

/-- The two fields of `struct ioqueue` that name a sleeping thread. -/
inductive Side where
  | producer
  | consumer
  deriving DecidableEq, Repr

def bufsize : Int := 1024

/-- `struct ioqueue` without its lock, which is `LockId.ioqLock`. -/
structure Ioqueue where
  producer : Option Tid
  consumer : Option Tid
  buf : Int → UInt8
  head : Int
  tail : Int

/-! ## Call stacks -/

/-- Where a thread is in `lock_acquire` or `lock_release`: the statement it executes next.  `++` and `--`
on memory are a load and a store. -/
inductive LockPc where
  | acquireTest
  | acquireDown
  | setHolder
  | assertFresh
  | setRepeat
  | incLoad
  | incStore (nr : Nat)
  | releaseAssert
  | releaseTest
  | decLoad
  | decStore (nr : Nat)
  | assertOne
  | clearHolder
  | clearRepeat
  | releaseUp
  deriving DecidableEq, Repr

def LockPc.isAcquire : LockPc → Bool
  | .acquireTest | .acquireDown | .setHolder | .assertFresh | .setRepeat | .incLoad | .incStore _ => true
  | _ => false

/-- The `while` loop of `ioq_getchar` and `ioq_putchar`: its test (and, when it fails, the rest of the
function), `ioq_wait`, and the call of `lock_release`. -/
inductive IoqPc where
  | loop
  | wait
  | release
  deriving DecidableEq, Repr

/-- `thread_start` and `process_execute` from `allocate_pid` on. -/
inductive CreatePc where
  | pidAcquire
  | pidLoad
  | pidStore (nextPid : Nat)
  | pidRelease
  | pidReturn
  | readyAssert
  | readyAppend
  | allAssert
  | allAppend
  /-- The interrupts-off section at the end of `process_execute`. -/
  | insert
  deriving DecidableEq, Repr

/-- The new thread is not in the ready list yet. -/
def CreatePc.beforeReady : CreatePc → Bool
  | .allAssert | .allAppend => false
  | _ => true

/-- The new PCB is initialised. -/
def CreatePc.initialised : CreatePc → Bool
  | .readyAssert | .readyAppend | .allAssert | .allAppend | .insert => true
  | _ => false

inductive ConsolePc where
  | acquire
  | put
  | release
  deriving DecidableEq, Repr

/-- The arguments of `thread_start` or `process_execute`, and the page `get_kernel_pages(1)` returned. -/
structure NewTask where
  pcb : Tid
  name : List Char
  prio : Nat
  process : Bool
  deriving DecidableEq, Repr

/-- The bottom of a call stack. -/
inductive Op where
  /-- The thread's own function, or user code. -/
  | idle
  | ioqGetchar (q : IoqId) (pc : IoqPc)
  | ioqPutchar (q : IoqId) (byte : UInt8) (pc : IoqPc)
  | create (task : NewTask) (pc : CreatePc)
  /-- `console_put_str`, `console_put_char` or `console_put_int`, with the characters still to print. -/
  | console (rest : List Char) (pc : ConsolePc)
  deriving DecidableEq, Repr

/-- The call of `lock_release` that `op` makes next, and where it returns to. -/
def Op.releases : Op → Option (LockId × Op)
  | .ioqGetchar q .release => some (.ioqLock q, .ioqGetchar q .loop)
  | .ioqPutchar q byte .release => some (.ioqLock q, .ioqPutchar q byte .loop)
  | .create n .pidRelease => some (.pidLock, .create n .pidReturn)
  | .console _ .release => some (.consoleLock, .idle)
  | _ => none

/-- The lock a function holds at a statement, once the `lock_acquire` before it has returned. -/
def Op.holds : Op → Option LockId
  | .ioqGetchar q .wait | .ioqGetchar q .release => some (.ioqLock q)
  | .ioqPutchar q _ .wait | .ioqPutchar q _ .release => some (.ioqLock q)
  | .create _ .pidLoad | .create _ (.pidStore _) | .create _ .pidRelease => some .pidLock
  | .console _ .put | .console _ .release => some .consoleLock
  | _ => none

/-- Where a thread that was switched out continues. -/
inductive Resume where
  | intrExit
  | kernelThread
  /-- `thread_block`, with the interrupt status it restores. -/
  | threadBlock (old : Bool)
  deriving DecidableEq, Repr

/-- The interrupt status a thread that was switched in restores. -/
def Resume.intr : Resume → Bool
  | .intrExit => true
  | .kernelThread => true
  | .threadBlock old => old

structure Ctx where
  resume : Option Resume
  /-- The loop of `sema_down`, with the interrupt status it restores. -/
  sema : Option (LockId × Bool)
  lock : Option (LockId × LockPc)
  op : Op
  deriving DecidableEq, Repr

/-- A thread in its own function. -/
def Ctx.idle : Ctx := { resume := none, sema := none, lock := none, op := .idle }

/-- The stack `thread_create` builds: the first switch starts `kernel_thread`. -/
def Ctx.new : Ctx := { Ctx.idle with resume := some .kernelThread }

/-- The statement of `lock_acquire(l)` or `lock_release(l)` a thread is at. -/
def Ctx.lockPc (c : Ctx) (l : LockId) : Option LockPc :=
  match c.lock with
  | none => none
  | some (l', pc) => if l' = l then some pc else none

/-- In the middle of `lock_acquire(l)`. -/
def Ctx.inAcquire (c : Ctx) (l : LockId) : Bool :=
  match c.lockPc l with
  | none => false
  | some pc => pc.isAcquire

theorem Ctx.lockPc_of_none {c : Ctx} (h : c.lock = none) (l : LockId) : c.lockPc l = none := by
  simp [Ctx.lockPc, h]

theorem Ctx.lockPc_of_some {c : Ctx} {l : LockId} {pc : LockPc} (h : c.lock = some (l, pc)) :
    c.lockPc l = some pc := by
  simp [Ctx.lockPc, h]

theorem Ctx.lockPc_of_ne {c : Ctx} {l l' : LockId} {pc : LockPc} (h : c.lock = some (l', pc)) (hl : l' ≠ l) :
    c.lockPc l = none := by
  simp [Ctx.lockPc, h, hl]

/-- A completed `sema_down`: back to the caller, which is `lock_acquire` or the thread itself. -/
def Ctx.semaReturn (c : Ctx) : Ctx :=
  { c with sema := none, lock := c.lock.map fun p => (p.1, .setHolder) }

/-! ## The state -/

/-- What the statements about runs speak of and the code never reads. -/
structure History where
  /-- Threads from their insertion in the ready list on. -/
  threads : List Tid
  /-- Threads whose `thread_start` or `process_execute` has returned. -/
  returned : List Tid
  /-- The thread that completed the last `sema_down`. -/
  lastDown : LockId → Option Tid
  /-- The threads between a completed `sema_down` and their `sema_up`. -/
  owners : LockId → List Tid
  /-- The threads `sema_up` took from the waiters that have not tested the value again. -/
  woken : LockId → List Tid
  /-- The calls of `lock_acquire` that have returned less those of `lock_release` that have started. -/
  held : Tid → LockId → Nat
  /-- The bytes stored by `ioq_putchar` and returned by `ioq_getchar`, in order. -/
  put : IoqId → List UInt8
  got : IoqId → List UInt8
  /-- The values `allocate_pid` returned, last first. -/
  pids : List Nat

def History.setHeld (h : History) (t : Tid) (l : LockId) (n : Nat) : History :=
  { h with held := Function.update h.held t (Function.update (h.held t) l n) }

structure Kernel where
  cur : Tid
  /-- The interrupt flag. -/
  intr : Bool
  mainThread : Tid
  task : Tid → Task
  ctx : Tid → Ctx
  readyList : List Tid
  allList : List Tid
  lock : LockId → Lock
  ioq : IoqId → Ioqueue
  nextPid : Nat
  ticks : Nat
  /-- The characters sent to the screen, in order. -/
  screen : List Char
  /-- The pages `get_kernel_pages` returned for PCBs. -/
  pcbs : List Tid
  hist : History

namespace Kernel

/-- The running thread's call stack. -/
def here (k : Kernel) : Ctx := k.ctx k.cur

def setHere (k : Kernel) (c : Ctx) : Kernel := { k with ctx := Function.update k.ctx k.cur c }

def setStatus (k : Kernel) (t : Tid) (stat : TaskStatus) : Kernel :=
  { k with task := Function.update k.task t { k.task t with status := stat } }

def setLock (k : Kernel) (l : LockId) (plock : Lock) : Kernel :=
  { k with lock := Function.update k.lock l plock }

def setSema (k : Kernel) (l : LockId) (psema : Semaphore) : Kernel :=
  k.setLock l { k.lock l with semaphore := psema }

def setIoq (k : Kernel) (q : IoqId) (ioq : Ioqueue) : Kernel :=
  { k with ioq := Function.update k.ioq q ioq }

def waiters (k : Kernel) (l : LockId) : List Tid := (k.lock l).semaphore.waiters

def value (k : Kernel) (l : LockId) : Nat := (k.lock l).semaphore.value

theorem waiters_setSema (k : Kernel) (l l' : LockId) (psema : Semaphore) :
    (k.setSema l psema).waiters l' = if l' = l then psema.waiters else k.waiters l' := by
  unfold waiters setSema setLock
  by_cases h : l' = l
  · subst h
    simp
  · simp [h]

theorem value_setSema (k : Kernel) (l l' : LockId) (psema : Semaphore) :
    (k.setSema l psema).value l' = if l' = l then psema.value else k.value l' := by
  unfold value setSema setLock
  by_cases h : l' = l
  · subst h
    simp
  · simp [h]

theorem status_setStatus (k : Kernel) (t u : Tid) (stat : TaskStatus) :
    ((k.setStatus t stat).task u).status = if u = t then stat else (k.task u).status := by
  unfold setStatus
  by_cases h : u = t
  · subst h
    simp
  · simp [h]

/-- The state `thread_init`, `console_init` and `keyboard_init` leave: only the main thread, with
interrupts off and the first pid.  A lock's semaphore starts at 1; `value` lets other semaphores start
elsewhere. -/
def boot (mainThread : Tid) (value : LockId → Nat) : Kernel :=
  { cur := mainThread
    intr := false
    mainThread := mainThread
    task := Function.update (fun _ => zeroTask) mainThread
      { pid := 1, status := .running, name := ['m', 'a', 'i', 'n'], priority := 31, ticks := 31,
        elapsedTicks := 0, stackMagic := 0x20040207 }
    ctx := Function.update (fun _ => Ctx.new) mainThread Ctx.idle
    readyList := []
    allList := [mainThread]
    lock := fun l => { lockInit with semaphore := semaInit (value l) }
    ioq := fun _ => { producer := none, consumer := none, buf := fun _ => 0, head := 0, tail := 0 }
    nextPid := 1
    ticks := 0
    screen := []
    pcbs := [mainThread]
    hist :=
      { threads := [mainThread], returned := [], lastDown := fun _ => none, owners := fun _ => [],
        woken := fun _ => [], held := fun _ _ => 0, put := fun _ => [], got := fun _ => [],
        pids := [1] } }

end Kernel

end MyOs
