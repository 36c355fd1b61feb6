import MyOs.Thread.Sync

/-!
# device/ioqueue.c: the byte queue between the keyboard and its readers

`ioq_getchar` and `ioq_putchar` run with interrupts off; they leave the CPU only by blocking, in
`lock_acquire` or in `ioq_wait`.  `getByte` and `putByte` are what they do once their loop ends.
-/

namespace MyOs

def nextPos (pos : Int) : Int := (pos + 1).tmod bufsize

namespace Ioqueue

/-- `ioq_full`, less its `ASSERT`. -/
def full (ioq : Ioqueue) : Bool := nextPos ioq.head = ioq.tail

/-- `ioq_empty`, less its `ASSERT`. -/
def empty (ioq : Ioqueue) : Bool := ioq.head = ioq.tail

def waiter (ioq : Ioqueue) : Side → Option Tid
  | .producer => ioq.producer
  | .consumer => ioq.consumer

def setWaiter (ioq : Ioqueue) (side : Side) (t : Option Tid) : Ioqueue :=
  match side with
  | .producer => { ioq with producer := t }
  | .consumer => { ioq with consumer := t }

theorem waiter_setWaiter (ioq : Ioqueue) (side side' : Side) (t : Option Tid) :
    (ioq.setWaiter side t).waiter side' = if side' = side then t else ioq.waiter side' := by
  cases side <;> cases side' <;> rfl

end Ioqueue

namespace Kernel

theorem ioq_setIoq (k : Kernel) (q q' : IoqId) (ioq : Ioqueue) :
    (k.setIoq q ioq).ioq q' = if q' = q then ioq else k.ioq q' := by
  unfold setIoq
  by_cases h : q' = q
  · subst h
    simp
  · simp [h]

/-- `ioq_wait(&ioq->consumer)` or `ioq_wait(&ioq->producer)`, up to the switch. -/
def ioqWait (k : Kernel) (q : IoqId) (side : Side) : Except Halt Kernel := do
  assert .debug "ioq_wait" "*waiter == NULL && waiter != NULL" ((k.ioq q).waiter side = none)
  threadBlock (k.setIoq q ((k.ioq q).setWaiter side (some k.cur))) .blocked

def wakeup (k : Kernel) (q : IoqId) (side : Side) : Except Halt Kernel :=
  match (k.ioq q).waiter side with
  | none => .error (.panicSpin "wakeup" "*waiter != NULL")
  | some t => do
    let k ← threadUnblock k t
    pure (k.setIoq q ((k.ioq q).setWaiter side none))

/-- `if(*waiter != NULL) wakeup(waiter)`. -/
def wakeupIfAny (k : Kernel) (q : IoqId) (side : Side) : Except Halt Kernel :=
  if (k.ioq q).waiter side ≠ none then wakeup k q side else .ok k

/-- `ioq->buf[ioq->tail]` is read and `tail` moved on. -/
def takeByte (k : Kernel) (q : IoqId) : Kernel :=
  let ioq := k.ioq q
  { (k.setIoq q { ioq with tail := nextPos ioq.tail }) with
    hist := { k.hist with got := Function.update k.hist.got q (k.hist.got q ++ [ioq.buf ioq.tail]) } }

/-- `ioq->buf[ioq->head]` is written and `head` moved on. -/
def storeByte (k : Kernel) (q : IoqId) (byte : UInt8) : Kernel :=
  let ioq := k.ioq q
  { (k.setIoq q { ioq with buf := Function.update ioq.buf ioq.head byte, head := nextPos ioq.head }) with
    hist := { k.hist with put := Function.update k.hist.put q (k.hist.put q ++ [byte]) } }

/-- `ioq_getchar` after its loop. -/
def getByte (k : Kernel) (q : IoqId) : Except Halt Kernel := wakeupIfAny (k.takeByte q) q .producer

/-- `ioq_putchar` after its loop. -/
def putByte (k : Kernel) (q : IoqId) (byte : UInt8) : Except Halt Kernel :=
  wakeupIfAny (k.storeByte q byte) q .consumer

def ioqGetcharStep (k : Kernel) (q : IoqId) : IoqPc → Except Halt Kernel
  | .loop => do
    assert .debug "ioq_empty" "intr_get_status() == INTR_OFF" (!k.intr)
    if (k.ioq q).empty then pure (callAcquire k (.ioqLock q) (.ioqGetchar q .wait))
    else getByte (k.setHere { k.here with op := .idle }) q
  | .wait => ioqWait (k.setHere { k.here with op := .ioqGetchar q .release }) q .consumer
  | .release => pure (callRelease k (.ioqLock q) (.ioqGetchar q .loop))

def ioqPutcharStep (k : Kernel) (q : IoqId) (byte : UInt8) : IoqPc → Except Halt Kernel
  | .loop => do
    assert .debug "ioq_full" "intr_get_status() == INTR_OFF" (!k.intr)
    if (k.ioq q).full then pure (callAcquire k (.ioqLock q) (.ioqPutchar q byte .wait))
    else putByte (k.setHere { k.here with op := .idle }) q byte
  | .wait => ioqWait (k.setHere { k.here with op := .ioqPutchar q byte .release }) q .producer
  | .release => pure (callRelease k (.ioqLock q) (.ioqPutchar q byte .loop))

/-- The end of `intr_keyboard_handler` for a key with a character.  The handler runs with interrupts off and
puts the byte only when there is room, so the loop of `ioq_putchar` ends at its first test. -/
def intrKeyboardHandler (k : Kernel) (q : IoqId) (byte : UInt8) : Except Halt Kernel := do
  let k := { k with intr := false }
  assert .debug "ioq_full" "intr_get_status() == INTR_OFF" (!k.intr)
  if (k.ioq q).full then pure { k with intr := true }
  else
    assert .debug "ioq_putchar" "intr_get_status() == INTR_OFF" (!k.intr)
    assert .debug "ioq_full" "intr_get_status() == INTR_OFF" (!k.intr)
    let k ← putByte k q byte
    pure { k with intr := true }

/-! ## What the functions return -/

theorem ioqWait_ok {k k' : Kernel} {q : IoqId} {side : Side} (h : ioqWait k q side = .ok k') :
    (k.ioq q).waiter side = none ∧
      schedule ((k.setIoq q ((k.ioq q).setWaiter side (some k.cur))).blocking .blocked) = .ok k' := by
  unfold ioqWait at h
  rw [bind_eq_ok] at h
  obtain ⟨u, hu, h⟩ := h
  rw [assert_debug_ok] at hu
  exact ⟨by simpa using hu, threadBlock_ok h⟩

/-- The caller's call stack while it sleeps. -/
theorem ioqWait_ctx {k k' : Kernel} {q : IoqId} {side : Side} (h : ioqWait k q side = .ok k') :
    k'.ctx = Function.update k.ctx k.cur { k.here with resume := some (.threadBlock k.intr) } := by
  obtain ⟨-, hs⟩ := ioqWait_ok h
  rw [schedule_frame hs]
  simp [blocking, setHere, here, setIoq, setStatus]

theorem ioqWait_op {k k' : Kernel} {q : IoqId} {op : Op} {side : Side}
    (hw : ioqWait (k.setHere { k.here with op := op }) q side = .ok k') : (k'.ctx k.cur).op = op := by
  have hctx := ioqWait_ctx hw
  rw [show (k.setHere { k.here with op := op }).here = { k.here with op := op } from
    Function.update_self _ _ _, show (k.setHere { k.here with op := op }).cur = k.cur from rfl] at hctx
  rw [hctx, Function.update_self]

/-- At most one thread is made ready, the one the field named. -/
theorem wakeupIfAny_ok {k k' : Kernel} {q : IoqId} {side : Side} (h : wakeupIfAny k q side = .ok k') :
    k' = k ∨ ∃ t, (k.ioq q).waiter side = some t ∧ t ∉ k.readyList ∧
      k' = { ((k.setStatus t .ready).setIoq q ((k.ioq q).setWaiter side none)) with
        readyList := t :: k.readyList } := by
  unfold wakeupIfAny at h
  split at h
  · unfold wakeup at h
    split at h
    · cases h
    · rename_i t ht
      rw [bind_eq_ok] at h
      obtain ⟨k1, h1, h⟩ := h
      obtain ⟨hn, rfl⟩ := threadUnblock_ok h1
      cases h
      exact .inr ⟨t, ht, hn, rfl⟩
  · cases h
    exact .inl rfl

theorem wakeupIfAny_ctx {k k' : Kernel} {q : IoqId} {side : Side} (h : wakeupIfAny k q side = .ok k') :
    k'.ctx = k.ctx ∧ k'.cur = k.cur := by
  rcases wakeupIfAny_ok h with rfl | ⟨t, -, -, rfl⟩
  · exact ⟨rfl, rfl⟩
  · exact ⟨rfl, rfl⟩

/-- What one round of `ioq_getchar` can do. -/
theorem ioqGetcharStep_ok {k k' : Kernel} {q : IoqId} {pc : IoqPc} (h : ioqGetcharStep k q pc = .ok k') :
    pc = .loop ∧ k.intr = false ∧ (k.ioq q).empty = true ∧
        k' = callAcquire k (.ioqLock q) (.ioqGetchar q .wait) ∨
      pc = .loop ∧ k.intr = false ∧ (k.ioq q).empty = false ∧
        getByte (k.setHere { k.here with op := .idle }) q = .ok k' ∨
      pc = .wait ∧ ioqWait (k.setHere { k.here with op := .ioqGetchar q .release }) q .consumer = .ok k' ∨
      pc = .release ∧ k' = callRelease k (.ioqLock q) (.ioqGetchar q .loop) := by
  cases pc with
  | loop =>
    simp only [ioqGetcharStep, bind_eq_ok, assert_debug_ok] at h
    obtain ⟨u, hu, h⟩ := h
    have hi : k.intr = false := by simpa using hu
    split at h
    · rename_i he
      cases h
      exact .inl ⟨rfl, hi, he, rfl⟩
    · rename_i he
      exact .inr (.inl ⟨rfl, hi, by simpa using he, h⟩)
  | wait => exact .inr (.inr (.inl ⟨rfl, h⟩))
  | release =>
    cases h
    exact .inr (.inr (.inr ⟨rfl, rfl⟩))

theorem ioqPutcharStep_ok {k k' : Kernel} {q : IoqId} {byte : UInt8} {pc : IoqPc}
    (h : ioqPutcharStep k q byte pc = .ok k') :
    pc = .loop ∧ k.intr = false ∧ (k.ioq q).full = true ∧
        k' = callAcquire k (.ioqLock q) (.ioqPutchar q byte .wait) ∨
      pc = .loop ∧ k.intr = false ∧ (k.ioq q).full = false ∧
        putByte (k.setHere { k.here with op := .idle }) q byte = .ok k' ∨
      pc = .wait ∧
        ioqWait (k.setHere { k.here with op := .ioqPutchar q byte .release }) q .producer = .ok k' ∨
      pc = .release ∧ k' = callRelease k (.ioqLock q) (.ioqPutchar q byte .loop) := by
  cases pc with
  | loop =>
    simp only [ioqPutcharStep, bind_eq_ok, assert_debug_ok] at h
    obtain ⟨u, hu, h⟩ := h
    have hi : k.intr = false := by simpa using hu
    split at h
    · rename_i he
      cases h
      exact .inl ⟨rfl, hi, he, rfl⟩
    · rename_i he
      exact .inr (.inl ⟨rfl, hi, by simpa using he, h⟩)
  | wait => exact .inr (.inr (.inl ⟨rfl, h⟩))
  | release =>
    cases h
    exact .inr (.inr (.inr ⟨rfl, rfl⟩))

end Kernel

end MyOs
