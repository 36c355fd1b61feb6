import MyOs.Thread.Lock
import MyOs.Theory.Masking

/-!
# The interrupt flag in the synchronisation calls

list.c, thread.c, sync.c and timer.c, as far as the interrupt flag goes: every statement of every function, in
order, with its calls.  The tests go either way and `switch_to` hands the CPU to any thread, so each run of the
kernel is one of these, whatever is in its lists and semaphores.

    kernel_checks      every function passes the checker of `MyOs.Theory.Masking`
    flag_restored      the eight functions return with the flag they were called with, in every run

`MyOs.Thread.SeenFlag` has the same for the machine of `MyOs.Thread.Machine`, with its lists and semaphores.
-/

namespace MyOs.IntrFlag

open Masking

inductive Fn where
  | listInsertBefore
  | listPush
  | listAppend
  | listRemove
  | listPop
  | threadBlock
  | threadUnblock
  | schedule
  | semaDown
  | semaUp
  | lockAcquire
  | lockRelease
  | intrTimerHandler
  /-- The entry of the timer interrupt in kernel.S. -/
  | intr20Entry
  /-- Any other entry that returns, the one of `int 0x80` included; `general_intr_handler` does not. -/
  | intrEntry
  | kernelThread
  /-- The function of a thread, user code, and the handlers but the timer's. -/
  | own
  deriving DecidableEq, Repr

/-! ## Statements -/

/-- A function of debug.c that never returns. -/
def panicSpin : Code Fn := .seq [.mask, .halt] .nil

/-- `ASSERT`, then `k`. -/
def assert (k : Code Fn) : Code Fn := .ite .nil panicSpin k

/-- `old_status = intr_disable()`, `body`, `intr_set_status(old_status)`.  `intr_disable` reads the flag, and
executes `cli` when it is on; where it is off, `cli` would change nothing. -/
def intrOff (body : Code Fn) : Code Fn := .seq [.save, .mask] (body.append (.seq [.restore] .nil))

/-! ## list.c -/

def listInsertBefore : Code Fn := intrOff (.seq [.data, .data, .data, .data] .nil)

def listPush : Code Fn := .seq [.call .listInsertBefore] .nil

def listAppend : Code Fn := .seq [.call .listInsertBefore] .nil

def listRemove : Code Fn := intrOff (.seq [.data, .data] .nil)

def listPop : Code Fn := .seq [.data, .call .listRemove, .ret] .nil

/-! ## thread.c -/

def kernelThread : Code Fn := .seq [.unmask, .data, .call .own] .nil

/-- A thread that is still `TASK_RUNNING` goes to the ready list; then the next one is popped, marked, named on
the screen and its page directory activated. -/
def schedule : Code Fn :=
  .seq [.assertOff, .data]
    (.ite (assert (.seq [.call .listAppend, .data, .data] .nil)) .nil
      (assert (.seq [.data, .call .listPop, .data, .data, .data, .data]
        (.ite (.seq [.data] .nil) .nil (.seq [.switch] .nil)))))

def threadBlock : Code Fn := assert (intrOff (.seq [.data, .data, .call .schedule] .nil))

def threadUnblock : Code Fn :=
  intrOff (assert (.ite (assert (.ite panicSpin .nil (.seq [.call .listPush, .data] .nil))) .nil .nil))

/-! ## sync.c -/

def semaDown : Code Fn :=
  intrOff (.loop (assert (.ite panicSpin .nil (.seq [.call .listAppend, .call .threadBlock] .nil)))
    (.seq [.data] (assert .nil)))

def semaUp : Code Fn :=
  intrOff (assert (.ite (.seq [.call .listPop, .call .threadUnblock] .nil) .nil (.seq [.data] (assert .nil))))

/-- `++` and `--` are a load and a store. -/
def lockAcquire : Code Fn :=
  .ite (.seq [.call .semaDown, .data] (assert (.seq [.data] .nil))) (.seq [.data, .data] .nil) .nil

def lockRelease : Code Fn :=
  assert (.ite (.seq [.data, .data, .ret] .nil) .nil (assert (.seq [.data, .data, .call .semaUp] .nil)))

/-! ## timer.c and kernel.S -/

def intrTimerHandler : Code Fn :=
  .seq [.data] (assert (.seq [.data, .data, .data, .data]
    (.ite (.seq [.call .schedule] .nil) (.seq [.data, .data] .nil) .nil)))

/-- The registers are pushed, the interrupt acknowledged and its vector pushed; the handler is called, and
`intr_exit` pops it all. -/
def intrEntry (handler : Fn) : Code Fn := .seq [.data, .data, .data, .call handler, .data, .iret] .nil

/-! ## Other code -/

def anyOf : List (Act Fn) → Code Fn
  | [] => .nil
  | a :: as => .ite (.seq [a] .nil) (anyOf as) .nil

/-- The eight functions the result is about. -/
def syncCalls : List Fn :=
  [.listInsertBefore, .listRemove, .threadBlock, .threadUnblock, .semaDown, .semaUp, .lockAcquire, .lockRelease]

/-- Any code that calls neither `schedule` nor `switch_to`: it sets the flag as it likes, and calls the
functions above and `int 0x80` as often as it likes. -/
def own : Code Fn :=
  .loop (anyOf ([.data, .mask, .unmask, .call .listPush, .call .listAppend, .call .listPop, .call .intrEntry] ++
    syncCalls.map .call)) .nil

def kernel : Program Fn where
  code
    | .listInsertBefore => listInsertBefore
    | .listPush => listPush
    | .listAppend => listAppend
    | .listRemove => listRemove
    | .listPop => listPop
    | .threadBlock => threadBlock
    | .threadUnblock => threadUnblock
    | .schedule => schedule
    | .semaDown => semaDown
    | .semaUp => semaUp
    | .lockAcquire => lockAcquire
    | .lockRelease => lockRelease
    | .intrTimerHandler => intrTimerHandler
    | .intr20Entry => intrEntry .intrTimerHandler
    | .intrEntry => intrEntry .own
    | .kernelThread => kernelThread
    | .own => own
  kind
    | .schedule | .intrTimerHandler => .masked
    | .intr20Entry | .intrEntry => .gate
    | .kernelThread | .own => .free
    | _ => .keeps

/-- The main thread runs with interrupts off, as the loader left them; the others wait in `kernel_thread`. -/
def boot (mainThread : Tid) : Cpu Fn Tid where
  flag := false
  cur := mainThread
  stack t := [⟨if t = mainThread then .own else .kernelThread, false, false,
    kernel.code (if t = mainThread then .own else .kernelThread)⟩]
  returns := []

/-- No function leaves a section with the flag as it should not be. -/
theorem kernel_checks (f : Fn) : kernel.Checks f := by
  cases f <;> exact ⟨_, rfl, by decide⟩

/-! ## Every run -/

theorem boot_inv (mainThread : Tid) : Inv kernel (boot mainThread) := by
  have hall : ∀ t, Masking.Sound kernel ((boot mainThread).stack t) false := by
    intro t
    refine Masking.Sound.new (kernel_checks _) ?_
    by_cases ht : t = mainThread
    · rw [if_pos ht]
      rfl
    · rw [if_neg ht]
      rfl
  refine ⟨hall mainThread, fun t _ => hall t, ?_⟩
  intro r hr
  cases hr

/-- What the synchronisation calls promise about the interrupt flag. -/
structure FlagKept (s : Cpu Fn Tid) : Prop where
  /-- A call of one of the functions returned with the flag it was called with. -/
  returns : ∀ r ∈ s.returns, r.fn ∈ syncCalls → r.flag = r.entry
  /-- While the running thread is in `schedule`, or in a function called from there, interrupts are off. -/
  schedule : ∀ f ∈ s.stack s.cur, f.fn = .schedule → s.flag = false
  /-- `switch_to` is executed with interrupts off. -/
  switchTo : ∀ f below k, s.stack s.cur = f :: below → f.rest = .act .switch k → s.flag = false

/-- **The interrupt flag is restored** by every synchronisation call of every thread, in every run. -/
theorem flag_restored (mainThread : Tid) (es : List (Masking.Event Fn Tid)) (s : Cpu Fn Tid)
    (hr : Runs (Masking.step kernel) (fun _ _ => True) (boot mainThread) es s) : FlagKept s := by
  have h : Inv kernel s := run_inv kernel_checks (boot_inv mainThread) hr
  refine ⟨?_, ?_, ?_⟩
  · intro r hmem hf
    refine h.returns r hmem ?_
    simp only [syncCalls, List.mem_cons, List.not_mem_nil, or_false] at hf
    rcases hf with hf | hf | hf | hf | hf | hf | hf | hf <;> (rw [hf]; rfl)
  · intro f hmem hf
    exact h.masked_off hmem (by rw [hf]; rfl)
  · intro f below k hst hrest
    exact h.switch_off hst hrest

/-- The running function goes on for `n` statements, every test on the way true. -/
def go (n : Nat) : List (Masking.Event Fn Tid) := List.replicate n (.next true)

/-- The thread's own code picks the `i`-th of its statements. -/
def pick (i : Nat) : List (Masking.Event Fn Tid) := go 1 ++ List.replicate i (.next false) ++ go 2

/-- The main thread, with interrupts on, blocks in `lock_acquire`; thread 1 starts with interrupts on, calls
`lock_release`, and is preempted; the main thread goes on in `schedule` and gets the lock. -/
def blockedRun : List (Masking.Event Fn Tid) :=
  List.flatten [pick 2, pick 13, go 6, [.next false], go 20, [.next false], go 16, [.next false, .switchTo 1],
    go 3, pick 14, go 1, [.next false], go 24, [.next false], go 19, [.interrupt .intr20Entry], go 45,
    [.next false, .switchTo 0], go 3, [.next false], go 8]

theorem flag_restored_blocked :
    ∃ s, Runs (Masking.step kernel) (fun _ _ => True) (boot 0) blockedRun s ∧
      (s.cur = 0 ∧ s.flag = true ∧ s.returns.take 3 =
        [⟨.lockAcquire, true, true⟩, ⟨.semaDown, true, true⟩, ⟨.threadBlock, false, false⟩]) ∧ FlagKept s := by
  obtain ⟨s, hr, hs⟩ := Runs.exists_of_exec (Masking.step kernel) (G := fun _ _ => True) (fun _ _ => true)
    (fun _ _ _ => trivial) (boot 0) blockedRun (fun s => (s.cur, s.flag, s.returns.take 3))
    (b := (0, true, [⟨.lockAcquire, true, true⟩, ⟨.semaDown, true, true⟩, ⟨.threadBlock, false, false⟩]))
    (by decide +kernel)
  simp only [Prod.mk.injEq] at hs
  exact ⟨s, hr, hs, flag_restored 0 blockedRun s hr⟩

end MyOs.IntrFlag
