import MyOs.Device.Ioqueue
import MyOs.Theory.Run

/-!
# The kernel as a machine

An event is an interrupt, a call a thread makes from its own function, or the next step of the call the
running thread is in.  `step` is one event; a run (`Runs step`) is any order of events the interrupt flag
and the call stacks allow, so it covers every interleaving of any number of threads.
-/

namespace MyOs

inductive Call where
  | intrEnable
  | intrDisable
  | semaDown (l : LockId)
  | semaUp (l : LockId)
  | lockAcquire (l : LockId)
  | lockRelease (l : LockId)
  | ioqGetchar (q : IoqId)
  | ioqPutchar (q : IoqId) (byte : UInt8)
  /-- `thread_start` or `process_execute`; `get_kernel_pages` returned `task.pcb`. -/
  | create (task : NewTask)
  /-- `console_put_str`, `console_put_char` or `console_put_int`, with the characters it prints. -/
  | console (str : List Char)
  deriving DecidableEq, Repr

inductive Event where
  | timer
  | keyboard (q : IoqId) (byte : UInt8)
  | call (c : Call)
  | step
  deriving DecidableEq, Repr

namespace Kernel

def setOp (k : Kernel) (op : Op) : Kernel := k.setHere { k.here with op := op }

/-! ## thread.c: creating threads -/

/-- `init_thread` after `allocate_pid` has returned `pid`. -/
def initTask (k : Kernel) (n : NewTask) (pid : Nat) : Task :=
  { pid := pid
    status := if n.pcb = k.mainThread then .running else .ready
    name := n.name
    priority := n.prio % 256
    ticks := n.prio % 256
    elapsedTicks := 0
    stackMagic := 0x20040207 }

/-- `get_kernel_pages(1)` returns the page `t`, cleared. -/
def allocPcb (k : Kernel) (t : Tid) : Kernel :=
  { k with task := Function.update k.task t zeroTask, pcbs := t :: k.pcbs }

/-- `init_thread` from the return of `allocate_pid` on, and `thread_create`: apart from the read of
`next_pid` they touch the new PCB page only. -/
def initPcb (k : Kernel) (n : NewTask) : Kernel :=
  { k with
    task := Function.update k.task n.pcb (initTask k n k.nextPid)
    ctx := Function.update k.ctx n.pcb Ctx.new
    hist := { k.hist with pids := k.nextPid :: k.hist.pids } }

/-- `list_append(&thread_ready_list, &thread->general_tag)`. -/
def appendReady (k : Kernel) (t : Tid) : Kernel :=
  { k with readyList := k.readyList ++ [t], hist := { k.hist with threads := t :: k.hist.threads } }

/-- `list_append(&thread_all_list, &thread->all_list_tag)`, the last statement before the return. -/
def appendAll (k : Kernel) (t : Tid) : Kernel :=
  { k with allList := k.allList ++ [t], hist := { k.hist with returned := t :: k.hist.returned } }

def createStep (k : Kernel) (n : NewTask) : CreatePc → Except Halt Kernel
  | .pidAcquire => .ok (callAcquire k .pidLock (.create n .pidLoad))
  | .pidLoad => .ok (k.setOp (.create n (.pidStore k.nextPid)))
  | .pidStore nextPid => .ok { (k.setOp (.create n .pidRelease)) with nextPid := (nextPid + 1) % 2 ^ 16 }
  | .pidRelease => .ok (callRelease k .pidLock (.create n .pidReturn))
  | .pidReturn => .ok (initPcb (k.setOp (.create n (if n.process then .insert else .readyAssert))) n)
  | .readyAssert => do
    assert .debug "thread_start" "!elem_find(&thread_ready_list, &thread->general_tag)" (n.pcb ∉ k.readyList)
    pure (k.setOp (.create n .readyAppend))
  | .readyAppend => .ok (appendReady (k.setOp (.create n .allAssert)) n.pcb)
  | .allAssert => do
    assert .debug "thread_start" "!elem_find(&thread_all_list, &thread->all_list_tag)" (n.pcb ∉ k.allList)
    pure (k.setOp (.create n .allAppend))
  | .allAppend => .ok (appendAll (k.setOp .idle) n.pcb)
  | .insert => do
    assert .debug "process_execute" "!elem_find(&thread_ready_list, &thread->general_tag)"
      (n.pcb ∉ k.readyList)
    assert .debug "process_execute" "!elem_find(&thread_all_list, &thread->all_list_tag)"
      (n.pcb ∉ k.allList)
    pure (appendAll (appendReady (k.setOp .idle) n.pcb) n.pcb)

/-! ## console.c and timer.c -/

def consoleStep (k : Kernel) (rest : List Char) : ConsolePc → Except Halt Kernel
  | .acquire => .ok (callAcquire k .consoleLock (.console rest .put))
  | .put =>
    match rest with
    | [] => .ok (k.setOp (.console [] .release))
    | c :: rest => .ok { (k.setOp (.console rest .put)) with screen := k.screen ++ [c] }
  | .release => .ok (callRelease k .consoleLock .idle)

/-- `elapsed_ticks++` and `ticks++`. -/
def countTick (k : Kernel) : Kernel :=
  { k with
    ticks := (k.ticks + 1) % 2 ^ 32
    task := Function.update k.task k.cur
      { k.task k.cur with elapsedTicks := ((k.task k.cur).elapsedTicks + 1) % 2 ^ 32 } }

/-- The state in which the timer handler calls `schedule`: the thread will continue at `intr_exit`. -/
def preempted (k : Kernel) : Kernel :=
  { (k.setHere { k.here with resume := some .intrExit }) with intr := false }

/-- `cur_thread->ticks--`. -/
def useTick (k : Kernel) : Kernel :=
  { k with task := Function.update k.task k.cur { k.task k.cur with ticks := (k.task k.cur).ticks - 1 } }

def intrTimerHandler (k : Kernel) : Except Halt Kernel := do
  assert .debug "intr_timer_handler" "cur_thread->stack_magic == 0x20040207"
    ((k.task k.cur).stackMagic = 0x20040207)
  if (k.task k.cur).ticks = 0 then schedule k.countTick.preempted
  else pure k.countTick.useTick

/-! ## Events -/

def opStep (k : Kernel) : Op → Except Halt Kernel
  | .idle => .error .disabled
  | .ioqGetchar q pc => ioqGetcharStep k q pc
  | .ioqPutchar q byte pc => ioqPutcharStep k q byte pc
  | .create n pc => createStep k n pc
  | .console rest pc => consoleStep k rest pc

/-- The innermost call of the running thread goes on. -/
def innermost (k : Kernel) : Except Halt Kernel :=
  match k.here.resume, k.here.sema, k.here.lock with
  | some r, _, _ => .ok { (k.setHere { k.here with resume := none }) with intr := r.intr }
  | none, some (l, old), _ => semaDownLoop k l old
  | none, none, some (l, pc) => lockStep k l pc
  | none, none, none => opStep k k.here.op

def call (k : Kernel) : Call → Except Halt Kernel
  | .intrEnable => .ok { k with intr := true }
  | .intrDisable => .ok { k with intr := false }
  | .semaDown l => semaDown k l
  | .semaUp l => semaUp k l
  | .lockAcquire l => .ok (callAcquire k l .idle)
  | .lockRelease l => .ok (callRelease k l .idle)
  | .ioqGetchar q => do
    assert .debug "ioq_getchar" "intr_get_status() == INTR_OFF" (!k.intr)
    pure (k.setOp (.ioqGetchar q .loop))
  | .ioqPutchar q byte => do
    assert .debug "ioq_putchar" "intr_get_status() == INTR_OFF" (!k.intr)
    pure (k.setOp (.ioqPutchar q byte .loop))
  | .create n =>
    -- the allocator hands out a page that is nobody's PCB
    if n.pcb ∈ k.pcbs then .error .disabled
    else .ok (allocPcb (k.setOp (.create n .pidAcquire)) n.pcb)
  | .console str => .ok (k.setOp (.console str .acquire))

def step (k : Kernel) : Event → Except Halt Kernel
  | .timer => if k.intr then intrTimerHandler k else .error .disabled
  | .keyboard q byte => if k.intr then intrKeyboardHandler k q byte else .error .disabled
  | .call c => if k.here = Ctx.idle then call k c else .error .disabled
  | .step => k.innermost

/-- Runs in which any event may happen whenever it can. -/
abbrev Free (_ : Kernel) (_ : Event) : Prop := True

/-! ## What a step can do -/

/-- The running thread executes statements of `op`. -/
def At (k : Kernel) (op : Op) : Prop := k.here = { Ctx.idle with op := op }

/-- Every way a step can end, with the state it leads to: the invariants are proved by cases on this. -/
inductive Trans (k : Kernel) : Event → Kernel → Prop
  | tick : k.intr = true → Trans k .timer k.countTick.useTick
  | preempt (k' : Kernel) : k.intr = true → schedule k.countTick.preempted = .ok k' → Trans k .timer k'
  | keyLost (q : IoqId) (byte : UInt8) : k.intr = true → (k.ioq q).full = true →
      Trans k (.keyboard q byte) k
  | key (q : IoqId) (byte : UInt8) (k1 : Kernel) : k.intr = true → (k.ioq q).full = false →
      putByte { k with intr := false } q byte = .ok k1 → Trans k (.keyboard q byte) { k1 with intr := true }
  | intrEnable : k.At .idle → Trans k (.call .intrEnable) { k with intr := true }
  | intrDisable : k.At .idle → Trans k (.call .intrDisable) { k with intr := false }
  | callDown (l : LockId) (k' : Kernel) : k.At .idle → semaDown k l = .ok k' → Trans k (.call (.semaDown l)) k'
  | callUp (l : LockId) (k' : Kernel) : k.At .idle → semaUp k l = .ok k' → Trans k (.call (.semaUp l)) k'
  | callAcquire (l : LockId) : k.At .idle → Trans k (.call (.lockAcquire l)) (callAcquire k l .idle)
  | callRelease (l : LockId) : k.At .idle → Trans k (.call (.lockRelease l)) (callRelease k l .idle)
  | callGetchar (q : IoqId) : k.At .idle → k.intr = false →
      Trans k (.call (.ioqGetchar q)) (k.setOp (.ioqGetchar q .loop))
  | callPutchar (q : IoqId) (byte : UInt8) : k.At .idle → k.intr = false →
      Trans k (.call (.ioqPutchar q byte)) (k.setOp (.ioqPutchar q byte .loop))
  | callCreate (n : NewTask) : k.At .idle → n.pcb ∉ k.pcbs →
      Trans k (.call (.create n)) (allocPcb (k.setOp (.create n .pidAcquire)) n.pcb)
  | callConsole (str : List Char) : k.At .idle →
      Trans k (.call (.console str)) (k.setOp (.console str .acquire))
  | resume (r : Resume) : k.here.resume = some r →
      Trans k .step { (k.setHere { k.here with resume := none }) with intr := r.intr }
  | redown (l : LockId) (old : Bool) (k' : Kernel) : k.here.resume = none → k.here.sema = some (l, old) →
      semaDownLoop k l old = .ok k' → Trans k .step k'
  | lockDown (l : LockId) (k' : Kernel) : k.here.resume = none → k.here.sema = none →
      k.here.lock = some (l, .acquireDown) → semaDown k l = .ok k' → Trans k .step k'
  | lockUp (l : LockId) (k' : Kernel) : k.here.resume = none → k.here.sema = none →
      k.here.lock = some (l, .releaseUp) → semaUp (k.setHere { k.here with lock := none }) l = .ok k' →
      Trans k .step k'
  | lockNext (l : LockId) (pc : LockPc) (plock : Lock) (next : Option LockPc) :
      k.here.resume = none → k.here.sema = none → k.here.lock = some (l, pc) →
      pc ≠ .acquireDown → pc ≠ .releaseUp → lockCode k.cur (k.lock l) pc = .ok (plock, next) →
      Trans k .step (k.lockNext l pc plock next)
  | getAcquire (q : IoqId) : k.At (.ioqGetchar q .loop) → k.intr = false → (k.ioq q).empty = true →
      Trans k .step (Kernel.callAcquire k (.ioqLock q) (.ioqGetchar q .wait))
  | putAcquire (q : IoqId) (byte : UInt8) : k.At (.ioqPutchar q byte .loop) → k.intr = false →
      (k.ioq q).full = true → Trans k .step (Kernel.callAcquire k (.ioqLock q) (.ioqPutchar q byte .wait))
  | get (q : IoqId) (k' : Kernel) : k.At (.ioqGetchar q .loop) → k.intr = false → (k.ioq q).empty = false →
      getByte (k.setHere { k.here with op := .idle }) q = .ok k' → Trans k .step k'
  | put (q : IoqId) (byte : UInt8) (k' : Kernel) : k.At (.ioqPutchar q byte .loop) → k.intr = false →
      (k.ioq q).full = false → putByte (k.setHere { k.here with op := .idle }) q byte = .ok k' →
      Trans k .step k'
  | getWait (q : IoqId) (k' : Kernel) : k.At (.ioqGetchar q .wait) →
      ioqWait (k.setHere { k.here with op := .ioqGetchar q .release }) q .consumer = .ok k' →
      Trans k .step k'
  | putWait (q : IoqId) (byte : UInt8) (k' : Kernel) : k.At (.ioqPutchar q byte .wait) →
      ioqWait (k.setHere { k.here with op := .ioqPutchar q byte .release }) q .producer = .ok k' →
      Trans k .step k'
  | opRelease (op op' : Op) (l : LockId) : k.At op → op.releases = some (l, op') →
      Trans k .step (Kernel.callRelease k l op')
  | pidAcquire (n : NewTask) : k.At (.create n .pidAcquire) →
      Trans k .step (Kernel.callAcquire k .pidLock (.create n .pidLoad))
  | pidLoad (n : NewTask) : k.At (.create n .pidLoad) →
      Trans k .step (k.setOp (.create n (.pidStore k.nextPid)))
  | pidStore (n : NewTask) (nextPid : Nat) : k.At (.create n (.pidStore nextPid)) →
      Trans k .step { (k.setOp (.create n .pidRelease)) with nextPid := (nextPid + 1) % 2 ^ 16 }
  | pidReturn (n : NewTask) : k.At (.create n .pidReturn) →
      Trans k .step (initPcb (k.setOp (.create n (if n.process then .insert else .readyAssert))) n)
  | readyAssert (n : NewTask) : k.At (.create n .readyAssert) → n.pcb ∉ k.readyList →
      Trans k .step (k.setOp (.create n .readyAppend))
  | readyAppend (n : NewTask) : k.At (.create n .readyAppend) →
      Trans k .step (appendReady (k.setOp (.create n .allAssert)) n.pcb)
  | allAssert (n : NewTask) : k.At (.create n .allAssert) → n.pcb ∉ k.allList →
      Trans k .step (k.setOp (.create n .allAppend))
  | allAppend (n : NewTask) : k.At (.create n .allAppend) → Trans k .step (appendAll (k.setOp .idle) n.pcb)
  | insert (n : NewTask) : k.At (.create n .insert) → n.pcb ∉ k.readyList → n.pcb ∉ k.allList →
      Trans k .step (appendAll (appendReady (k.setOp .idle) n.pcb) n.pcb)
  | consoleAcquire (rest : List Char) : k.At (.console rest .acquire) →
      Trans k .step (Kernel.callAcquire k .consoleLock (.console rest .put))
  | consolePut (c : Char) (rest : List Char) : k.At (.console (c :: rest) .put) →
      Trans k .step { (k.setOp (.console rest .put)) with screen := k.screen ++ [c] }
  | consoleDone : k.At (.console [] .put) → Trans k .step (k.setOp (.console [] .release))

theorem timer_trans {k k' : Kernel} (hi : k.intr = true) (h : intrTimerHandler k = .ok k') :
    Trans k .timer k' := by
  unfold intrTimerHandler at h
  rw [bind_eq_ok] at h
  obtain ⟨-, -, h⟩ := h
  split at h
  · exact .preempt k' hi h
  · cases h
    exact .tick hi

theorem keyboard_trans {k k' : Kernel} {q : IoqId} {byte : UInt8} (hi : k.intr = true)
    (h : intrKeyboardHandler k q byte = .ok k') : Trans k (.keyboard q byte) k' := by
  unfold intrKeyboardHandler at h
  dsimp only at h
  rw [bind_eq_ok] at h
  obtain ⟨-, -, h⟩ := h
  split at h
  · rename_i hf
    cases h
    have hk : { { k with intr := false } with intr := true } = k := by
      cases k
      cases hi
      rfl
    rw [hk]
    exact .keyLost q byte hi hf
  · rename_i hf
    rw [bind_eq_ok] at h
    obtain ⟨-, -, h⟩ := h
    rw [bind_eq_ok] at h
    obtain ⟨-, -, h⟩ := h
    rw [bind_eq_ok] at h
    obtain ⟨k1, h1, h⟩ := h
    cases h
    exact .key q byte k1 hi (by simpa using hf) h1

theorem call_trans {k k' : Kernel} {c : Call} (ha : k.At .idle) (h : call k c = .ok k') :
    Trans k (.call c) k' := by
  cases c with
  | intrEnable => cases h; exact .intrEnable ha
  | intrDisable => cases h; exact .intrDisable ha
  | semaDown l => exact .callDown l k' ha h
  | semaUp l => exact .callUp l k' ha h
  | lockAcquire l => cases h; exact .callAcquire l ha
  | lockRelease l => cases h; exact .callRelease l ha
  | ioqGetchar q =>
    simp only [call, bind_eq_ok, assert_debug_ok] at h
    obtain ⟨-, hi, h⟩ := h
    cases h
    exact .callGetchar q ha (by simpa using hi)
  | ioqPutchar q byte =>
    simp only [call, bind_eq_ok, assert_debug_ok] at h
    obtain ⟨-, hi, h⟩ := h
    cases h
    exact .callPutchar q byte ha (by simpa using hi)
  | create n =>
    simp only [call] at h
    split at h
    · cases h
    · rename_i hn
      cases h
      exact .callCreate n ha hn
  | console str => cases h; exact .callConsole str ha

theorem createStep_trans {k k' : Kernel} {n : NewTask} {pc : CreatePc} (ha : k.At (.create n pc))
    (h : createStep k n pc = .ok k') : Trans k .step k' := by
  cases pc with
  | pidAcquire => cases h; exact .pidAcquire n ha
  | pidLoad => cases h; exact .pidLoad n ha
  | pidStore nextPid => cases h; exact .pidStore n nextPid ha
  | pidRelease => cases h; exact .opRelease _ _ _ ha rfl
  | pidReturn => cases h; exact .pidReturn n ha
  | readyAssert =>
    simp only [createStep, bind_eq_ok, assert_debug_ok] at h
    obtain ⟨-, hn, h⟩ := h
    cases h
    exact .readyAssert n ha (by simpa using hn)
  | readyAppend => cases h; exact .readyAppend n ha
  | allAssert =>
    simp only [createStep, bind_eq_ok, assert_debug_ok] at h
    obtain ⟨-, hn, h⟩ := h
    cases h
    exact .allAssert n ha (by simpa using hn)
  | allAppend => cases h; exact .allAppend n ha
  | insert =>
    simp only [createStep, bind_eq_ok, assert_debug_ok] at h
    obtain ⟨-, hr, -, hl, h⟩ := h
    cases h
    exact .insert n ha (by simpa using hr) (by simpa using hl)

theorem opStep_trans {k k' : Kernel} {op : Op} (ha : k.At op) (h : opStep k op = .ok k') :
    Trans k .step k' := by
  cases op with
  | idle => cases h
  | ioqGetchar q pc =>
    rcases ioqGetcharStep_ok h with ⟨rfl, hi, he, rfl⟩ | ⟨rfl, hi, he, h⟩ | ⟨rfl, h⟩ | ⟨rfl, rfl⟩
    · exact .getAcquire q ha hi he
    · exact .get q k' ha hi he h
    · exact .getWait q k' ha h
    · exact .opRelease _ _ _ ha rfl
  | ioqPutchar q byte pc =>
    rcases ioqPutcharStep_ok h with ⟨rfl, hi, he, rfl⟩ | ⟨rfl, hi, he, h⟩ | ⟨rfl, h⟩ | ⟨rfl, rfl⟩
    · exact .putAcquire q byte ha hi he
    · exact .put q byte k' ha hi he h
    · exact .putWait q byte k' ha h
    · exact .opRelease _ _ _ ha rfl
  | create n pc => exact createStep_trans ha h
  | console rest pc =>
    cases pc with
    | acquire => cases h; exact .consoleAcquire rest ha
    | put =>
      cases rest with
      | nil => cases h; exact .consoleDone ha
      | cons c rest => cases h; exact .consolePut c rest ha
    | release => cases h; exact .opRelease _ _ _ ha rfl

theorem innermost_trans {k k' : Kernel} (h : innermost k = .ok k') : Trans k .step k' := by
  cases hr : k.here.resume with
  | some r =>
    simp only [innermost, hr] at h
    cases h
    exact .resume r hr
  | none =>
    cases hs : k.here.sema with
    | some p =>
      simp only [innermost, hr, hs] at h
      exact .redown p.1 p.2 k' hr hs h
    | none =>
      cases hl : k.here.lock with
      | some p =>
        simp only [innermost, hr, hs, hl] at h
        obtain ⟨l, pc⟩ := p
        rcases lockStep_ok h with ⟨rfl, h⟩ | ⟨rfl, h⟩ | ⟨h1, h2, plock, next, hc, rfl⟩
        · exact .lockDown l k' hr hs hl h
        · exact .lockUp l k' hr hs hl h
        · exact .lockNext l pc plock next hr hs hl h1 h2 hc
      | none =>
        simp only [innermost, hr, hs, hl] at h
        have ha : k.At k.here.op := by
          unfold At Ctx.idle
          rw [← hr, ← hs, ← hl]
        exact opStep_trans ha h

theorem step_trans {k k' : Kernel} {e : Event} (h : step k e = .ok k') : Trans k e k' := by
  cases e with
  | timer =>
    simp only [step] at h
    split at h
    · rename_i hi
      exact timer_trans hi h
    · cases h
  | keyboard q byte =>
    simp only [step] at h
    split at h
    · rename_i hi
      exact keyboard_trans hi h
    · cases h
  | call c =>
    simp only [step] at h
    split at h
    · rename_i ha
      exact call_trans ha h
    · cases h
  | step => exact innermost_trans h

end Kernel

/-- A call of `thread_start` that nobody interrupts. -/
def threadStartRun (pcb : Tid) (prio : Nat) : List Event :=
  .call (.create { pcb := pcb, name := ['k'], prio := prio, process := false }) :: List.replicate 20 .step

end MyOs
