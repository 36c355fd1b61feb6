import MyOs.Thread.State

/-!
# thread/thread.c and thread/sync.c: scheduling, semaphores and locks

The functions run by the thread on the CPU.  `schedule` leaves the state as `switch_to` hands it to the
next thread: interrupts are off and the caller's call stack says where it will continue.

A failed `ASSERT` calls `panic_spin`, which never returns: the model is the build with `ASSERT` active.
The second test of `sema_down` and `thread_unblock`, a `PANIC` on the condition just asserted, is then
never reached.

Each function has one lemma `f_ok` that says what state it returns; everything else is proved from those.
-/

namespace MyOs.Kernel

/-! ## thread.c -/

/-- `schedule` from `list_pop` on: the first ready thread gets the CPU. -/
def dispatch (k : Kernel) : Except Halt Kernel :=
  match k.readyList with
  | [] => .error (.panicSpin "schedule" "!list_empty(&thread_ready_list)")
  | next :: rest =>
    .ok { (k.setStatus next .running) with
      readyList := rest
      cur := next
      screen := k.screen ++ (k.task next).name }

/-- A thread that is still `TASK_RUNNING` goes to the end of the ready list. -/
def requeue (k : Kernel) : Kernel :=
  { k with
    readyList := k.readyList ++ [k.cur]
    task := Function.update k.task k.cur
      { k.task k.cur with ticks := (k.task k.cur).priority, status := .ready } }

def schedule (k : Kernel) : Except Halt Kernel := do
  assert .debug "schedule" "intr_get_status() == INTR_OFF" (!k.intr)
  if (k.task k.cur).status = .running then
    assert .debug "schedule" "!elem_find(&thread_ready_list, &cur->general_tag)" (k.cur ∉ k.readyList)
    dispatch k.requeue
  else dispatch k

/-- The state in which `thread_block(stat)` calls `schedule`; the rest of it is `Resume.threadBlock`. -/
def blocking (k : Kernel) (stat : TaskStatus) : Kernel :=
  { ((k.setStatus k.cur stat).setHere { k.here with resume := some (.threadBlock k.intr) }) with
    intr := false }

def threadBlock (k : Kernel) (stat : TaskStatus) : Except Halt Kernel := do
  assert .debug "thread_block"
    "((stat==TASK_WAITING) || (stat==TASK_BLOCKED) || (stat==TASK_HANGING))"
    (stat = .waiting ∨ stat = .blocked ∨ stat = .hanging)
  schedule (k.blocking stat)

def threadUnblock (k : Kernel) (t : Tid) : Except Halt Kernel := do
  assert .debug "thread_unblock"
    "(pthread->status==TASK_BLOCKED)||(pthread->status==TASK_HANGING)||(pthread->status==TASK_WAITING)"
    ((k.task t).status = .blocked ∨ (k.task t).status = .hanging ∨ (k.task t).status = .waiting)
  if (k.task t).status ≠ .ready then
    assert .debug "thread_unblock" "!elem_find(&thread_ready_list, &pthread->general_tag)" (t ∉ k.readyList)
    pure { (k.setStatus t .ready) with readyList := t :: k.readyList }
  else pure k

theorem dispatch_ok {k k' : Kernel} (h : dispatch k = .ok k') :
    ∃ next rest, k.readyList = next :: rest ∧
      k' = { (k.setStatus next .running) with
        readyList := rest
        cur := next
        screen := k.screen ++ (k.task next).name } := by
  unfold dispatch at h
  split at h
  · cases h
  · rename_i next rest hl
    cases h
    exact ⟨next, rest, hl, rfl⟩

theorem schedule_ok {k k' : Kernel} (h : schedule k = .ok k') :
    k.intr = false ∧
      ((k.task k.cur).status = .running ∧ k.cur ∉ k.readyList ∧ dispatch k.requeue = .ok k' ∨
        (k.task k.cur).status ≠ .running ∧ dispatch k = .ok k') := by
  unfold schedule at h
  rw [bind_eq_ok] at h
  obtain ⟨u, hu, h⟩ := h
  rw [assert_debug_ok] at hu
  refine ⟨by simpa using hu, ?_⟩
  split at h
  · rename_i hs
    rw [bind_eq_ok] at h
    obtain ⟨u', hu', h⟩ := h
    rw [assert_debug_ok] at hu'
    exact .inl ⟨hs, by simpa using hu', h⟩
  · rename_i hs
    exact .inr ⟨hs, h⟩

/-- `schedule` writes the running thread, the tasks, the ready list and the screen. -/
theorem schedule_frame {k k' : Kernel} (h : schedule k = .ok k') :
    k' = { k with cur := k'.cur, task := k'.task, readyList := k'.readyList, screen := k'.screen } := by
  obtain ⟨-, ⟨-, -, h⟩ | ⟨-, h⟩⟩ := schedule_ok h
  · obtain ⟨next, rest, -, rfl⟩ := dispatch_ok h
    rfl
  · obtain ⟨next, rest, -, rfl⟩ := dispatch_ok h
    rfl

/-- Only the caller and threads of the ready list are touched. -/
theorem schedule_task {k k' : Kernel} (h : schedule k = .ok k') {t : Tid} (hc : t ≠ k.cur)
    (hr : t ∉ k.readyList) : k'.task t = k.task t := by
  obtain ⟨-, ⟨-, -, h⟩ | ⟨-, h⟩⟩ := schedule_ok h
  · obtain ⟨next, rest, hl, rfl⟩ := dispatch_ok h
    have hmem : next ∈ k.readyList ++ [k.cur] := by
      have hl' : k.readyList ++ [k.cur] = next :: rest := hl
      rw [hl']
      simp
    have hn : t ≠ next := by
      rintro rfl
      simp at hmem
      tauto
    simp [setStatus, requeue, hn, hc]
  · obtain ⟨next, rest, hl, rfl⟩ := dispatch_ok h
    have hn : t ≠ next := by
      rintro rfl
      rw [hl] at hr
      simp at hr
    simp [setStatus, hn]

theorem threadBlock_ok {k k' : Kernel} {stat : TaskStatus} (h : threadBlock k stat = .ok k') :
    schedule (k.blocking stat) = .ok k' := by
  unfold threadBlock at h
  rw [bind_eq_ok] at h
  obtain ⟨-, -, h⟩ := h
  exact h

theorem threadUnblock_ok {k k' : Kernel} {t : Tid} (h : threadUnblock k t = .ok k') :
    t ∉ k.readyList ∧ k' = { (k.setStatus t .ready) with readyList := t :: k.readyList } := by
  unfold threadUnblock at h
  rw [bind_eq_ok] at h
  obtain ⟨u, hu, h⟩ := h
  rw [assert_debug_ok] at hu
  have hne : (k.task t).status ≠ .ready := by
    intro he
    simp [he] at hu
  rw [if_pos hne, bind_eq_ok] at h
  obtain ⟨u', hu', h⟩ := h
  rw [assert_debug_ok] at hu'
  cases h
  exact ⟨by simpa using hu', rfl⟩

/-! ## Semaphores -/

/-- The running thread has tested the value again. -/
def retested (k : Kernel) (l : LockId) : Kernel :=
  { k with hist := { k.hist with woken := Function.update k.hist.woken l ((k.hist.woken l).erase k.cur) } }

/-- `list_append(&psema->waiters, &running_thread()->general_tag)`, inside `sema_down`. -/
def enqueue (k : Kernel) (l : LockId) (old : Bool) : Kernel :=
  (k.setSema l { (k.lock l).semaphore with waiters := k.waiters l ++ [k.cur] }).setHere
    { k.here with sema := some (l, old) }

/-- The end of `sema_down`: the value is taken and `old` restored. -/
def takeSema (k : Kernel) (l : LockId) (old : Bool) : Kernel :=
  { ((k.setSema l { (k.lock l).semaphore with value := k.value l - 1 }).setHere k.here.semaReturn) with
    intr := old
    hist := { k.hist with
      lastDown := Function.update k.hist.lastDown l (some k.cur)
      owners := Function.update k.hist.owners l (k.cur :: k.hist.owners l) } }

/-- One round of the loop of `sema_down`, with interrupts off: either the thread queues up and blocks, or
it takes the value and returns. -/
def semaDownLoop (k : Kernel) (l : LockId) (old : Bool) : Except Halt Kernel :=
  if k.value l = 0 then do
    assert .debug "sema_down" "!elem_find(&psema->waiters, &running_thread()->general_tag)"
      (k.cur ∉ k.waiters l)
    threadBlock ((k.retested l).enqueue l old) .blocked
  else do
    assert .debug "sema_down" "psema->value==0" (k.value l - 1 = 0)
    pure ((k.retested l).takeSema l old)

def semaDown (k : Kernel) (l : LockId) : Except Halt Kernel :=
  semaDownLoop { k with intr := false } l k.intr

/-- The first waiter of `l`, if there is one, is taken from the list and made ready. -/
def wakeFirst (k : Kernel) (l : LockId) : Except Halt Kernel :=
  match k.waiters l with
  | [] => .ok k
  | t :: rest =>
    threadUnblock { (k.setSema l { (k.lock l).semaphore with waiters := rest }) with
      hist := { k.hist with woken := Function.update k.hist.woken l (t :: k.hist.woken l) } } t

/-- `psema->value++`; the running thread has done its `sema_up`. -/
def raiseSema (k : Kernel) (l : LockId) : Kernel :=
  { (k.setSema l { (k.lock l).semaphore with value := (k.value l + 1) % 256 }) with
    hist := { k.hist with owners := Function.update k.hist.owners l ((k.hist.owners l).erase k.cur) } }

def semaUp (k : Kernel) (l : LockId) : Except Halt Kernel := do
  assert .debug "sema_up" "psema->value == 0" (k.value l = 0)
  let k ← wakeFirst k l
  assert .debug "sema_up" "psema->value==1" ((k.value l + 1) % 256 = 1)
  pure (k.raiseSema l)

theorem semaDownLoop_ok {k k' : Kernel} {l : LockId} {old : Bool} (h : semaDownLoop k l old = .ok k') :
    k.value l = 0 ∧ k.cur ∉ k.waiters l ∧
        schedule (((k.retested l).enqueue l old).blocking .blocked) = .ok k' ∨
      k.value l = 1 ∧ k' = (k.retested l).takeSema l old := by
  unfold semaDownLoop at h
  split at h
  · rename_i hv
    rw [bind_eq_ok] at h
    obtain ⟨u, hu, h⟩ := h
    rw [assert_debug_ok] at hu
    exact .inl ⟨hv, by simpa using hu, threadBlock_ok h⟩
  · rename_i hv
    rw [bind_eq_ok] at h
    obtain ⟨u, hu, h⟩ := h
    rw [assert_debug_ok] at hu
    cases h
    refine .inr ⟨?_, rfl⟩
    have hu' : k.value l - 1 = 0 := by simpa using hu
    omega

/-- The caller's call stack after a round of `sema_down`. -/
theorem semaDownLoop_ctx {k k' : Kernel} {l : LockId} {old : Bool} (h : semaDownLoop k l old = .ok k') :
    k.value l = 0 ∧ k'.ctx = Function.update k.ctx k.cur
        { k.here with sema := some (l, old), resume := some (.threadBlock k.intr) } ∨
      k.value l = 1 ∧ k'.ctx = Function.update k.ctx k.cur k.here.semaReturn := by
  rcases semaDownLoop_ok h with ⟨hv, -, hs⟩ | ⟨hv, rfl⟩
  · refine .inl ⟨hv, ?_⟩
    rw [schedule_frame hs]
    simp [blocking, enqueue, retested, setHere, here, setSema, setLock, setStatus]
  · exact .inr ⟨hv, rfl⟩

/-- A thread that waits stays in the call it waits in. -/
theorem semaDownLoop_op {k k1 k' : Kernel} {l : LockId} {old : Bool} (hd : semaDownLoop k1 l old = .ok k')
    (hctx : k1.ctx = k.ctx) (hcur : k1.cur = k.cur) : (k'.ctx k.cur).op = k.here.op := by
  unfold here
  rw [← hctx, ← hcur]
  rcases semaDownLoop_ctx hd with ⟨-, hx⟩ | ⟨-, hx⟩
  · rw [hx, Function.update_self]
    rfl
  · rw [hx, Function.update_self]
    rfl

theorem wakeFirst_ok {k k' : Kernel} {l : LockId} (h : wakeFirst k l = .ok k') :
    k.waiters l = [] ∧ k' = k ∨
      ∃ t rest, k.waiters l = t :: rest ∧ t ∉ k.readyList ∧
        k' = { ((k.setSema l { (k.lock l).semaphore with waiters := rest }).setStatus t .ready) with
          readyList := t :: k.readyList
          hist := { k.hist with woken := Function.update k.hist.woken l (t :: k.hist.woken l) } } := by
  unfold wakeFirst at h
  split at h
  · rename_i hw
    cases h
    exact .inl ⟨hw, rfl⟩
  · rename_i t rest hw
    obtain ⟨hn, rfl⟩ := threadUnblock_ok h
    exact .inr ⟨t, rest, hw, hn, rfl⟩

theorem semaUp_ok {k k' : Kernel} {l : LockId} (h : semaUp k l = .ok k') :
    k.value l = 0 ∧ ∃ k1, wakeFirst k l = .ok k1 ∧ k' = k1.raiseSema l := by
  unfold semaUp at h
  rw [bind_eq_ok] at h
  obtain ⟨u, hu, h⟩ := h
  rw [assert_debug_ok] at hu
  rw [bind_eq_ok] at h
  obtain ⟨k1, h1, h⟩ := h
  rw [bind_eq_ok] at h
  obtain ⟨-, -, h⟩ := h
  cases h
  exact ⟨by simpa using hu, k1, h1, rfl⟩

theorem semaUp_ctx {k k' : Kernel} {l : LockId} (h : semaUp k l = .ok k') :
    k'.ctx = k.ctx ∧ k'.cur = k.cur := by
  obtain ⟨-, k1, h1, rfl⟩ := semaUp_ok h
  rcases wakeFirst_ok h1 with ⟨-, rfl⟩ | ⟨t, rest, -, -, rfl⟩
  · exact ⟨rfl, rfl⟩
  · exact ⟨rfl, rfl⟩

/-! ## Locks -/

/-- One statement of `lock_acquire` or `lock_release` that touches only the lock: the new lock and the
next statement, `none` when the function returns.  The calls of `sema_down` and `sema_up` are in
`lockStep`. -/
def lockCode (cur : Tid) (plock : Lock) : LockPc → Except Halt (Lock × Option LockPc)
  | .acquireTest =>
    if plock.holder ≠ some cur then .ok (plock, some .acquireDown) else .ok (plock, some .incLoad)
  | .acquireDown => .ok (plock, some .setHolder)
  | .setHolder => .ok ({ plock with holder := some cur }, some .assertFresh)
  | .assertFresh => do
    assert .debug "lock_acquire" "plock->holder_repeat_nr == 0" (plock.holderRepeatNr = 0)
    pure (plock, some .setRepeat)
  | .setRepeat => .ok ({ plock with holderRepeatNr := 1 }, none)
  | .incLoad => .ok (plock, some (.incStore plock.holderRepeatNr))
  | .incStore nr => .ok ({ plock with holderRepeatNr := (nr + 1) % 2 ^ 32 }, none)
  | .releaseAssert => do
    assert .debug "lock_release" "plock->holder == running_thread()" (plock.holder = some cur)
    pure (plock, some .releaseTest)
  | .releaseTest =>
    if plock.holderRepeatNr > 1 then .ok (plock, some .decLoad) else .ok (plock, some .assertOne)
  | .decLoad => .ok (plock, some (.decStore plock.holderRepeatNr))
  | .decStore nr => .ok ({ plock with holderRepeatNr := nr - 1 }, none)
  | .assertOne => do
    assert .debug "lock_release" "plock->holder_repeat_nr==1" (plock.holderRepeatNr = 1)
    pure (plock, some .clearHolder)
  | .clearHolder => .ok ({ plock with holder := none }, some .clearRepeat)
  | .clearRepeat => .ok ({ plock with holderRepeatNr := 0 }, some .releaseUp)
  | .releaseUp => .ok (plock, none)

/-- A returning `lock_acquire` counts as one more hold. -/
def countHeld (k : Kernel) (l : LockId) (pc : LockPc) (next : Option LockPc) : History :=
  if pc.isAcquire ∧ next = none then k.hist.setHeld k.cur l (k.hist.held k.cur l + 1) else k.hist

/-- The lock is now `plock` and the running thread at `next`. -/
def lockNext (k : Kernel) (l : LockId) (pc : LockPc) (plock : Lock) (next : Option LockPc) : Kernel :=
  { ((k.setLock l plock).setHere { k.here with lock := next.map fun pc => (l, pc) }) with
    hist := countHeld k l pc next }

def lockStep (k : Kernel) (l : LockId) (pc : LockPc) : Except Halt Kernel :=
  match pc with
  | .acquireDown => semaDown k l
  | .releaseUp => semaUp (k.setHere { k.here with lock := none }) l
  | pc => do
    let r ← lockCode k.cur (k.lock l) pc
    pure (k.lockNext l pc r.1 r.2)

/-- Calling `lock_acquire(l)` from `op`, the place the call returns to. -/
def callAcquire (k : Kernel) (l : LockId) (op : Op) : Kernel :=
  k.setHere { k.here with lock := some (l, .acquireTest), op := op }

def callRelease (k : Kernel) (l : LockId) (op : Op) : Kernel :=
  { (k.setHere { k.here with lock := some (l, .releaseAssert), op := op }) with
    hist := k.hist.setHeld k.cur l (k.hist.held k.cur l - 1) }

theorem lockStep_ok {k k' : Kernel} {l : LockId} {pc : LockPc} (h : lockStep k l pc = .ok k') :
    pc = .acquireDown ∧ semaDown k l = .ok k' ∨
      pc = .releaseUp ∧ semaUp (k.setHere { k.here with lock := none }) l = .ok k' ∨
      pc ≠ .acquireDown ∧ pc ≠ .releaseUp ∧ ∃ plock next,
        lockCode k.cur (k.lock l) pc = .ok (plock, next) ∧ k' = k.lockNext l pc plock next := by
  unfold lockStep at h
  split at h
  · exact .inl ⟨rfl, h⟩
  · exact .inr (.inl ⟨rfl, h⟩)
  · rename_i h1 h2
    rw [bind_eq_ok] at h
    obtain ⟨r, hr, h⟩ := h
    cases h
    exact .inr (.inr ⟨h1, h2, r.1, r.2, hr, rfl⟩)

/-- What `lockCode` computes keeps the semaphore. -/
theorem lockCode_semaphore {cur : Tid} {plock plock' : Lock} {pc : LockPc} {next : Option LockPc}
    (h : lockCode cur plock pc = .ok (plock', next)) : plock'.semaphore = plock.semaphore := by
  cases pc with
  | acquireTest =>
    simp only [lockCode] at h
    split at h <;> (cases h; rfl)
  | releaseTest =>
    simp only [lockCode] at h
    split at h <;> (cases h; rfl)
  | assertFresh | releaseAssert | assertOne =>
    simp only [lockCode, bind_eq_ok] at h
    obtain ⟨-, -, h⟩ := h
    cases h
    rfl
  | _ =>
    cases h
    rfl

end MyOs.Kernel
