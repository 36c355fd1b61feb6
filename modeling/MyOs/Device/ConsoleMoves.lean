import MyOs.Thread.KernelLock
import MyOs.Thread.TimeSlices

/-!
# What a step prints

A step prints the next character of a console call, or the name of the thread that `schedule` switches to, or
nothing (`step_moves`).  `namePrinted` says from the state before the step which name that is.
-/

namespace MyOs

namespace Kernel

variable {k k' : Kernel} {l l' : LockId} {c : Ctx}

/-! ## What `schedule` prints -/

/-- The ready list a call of `schedule` in the step takes the next thread from; empty when the step makes no
such call. -/
def popped (k : Kernel) : Event → List Tid
  | .timer => if (k.task k.cur).ticks = 0 then k.readyList ++ [k.cur] else []
  | e => if k.blocks e then k.readyList else []

def headName (k : Kernel) : List Tid → List Char
  | [] => []
  | next :: _ => (k.task next).name

/-- `put_str(next->name)`, when the step calls `schedule`. -/
def namePrinted (k : Kernel) (e : Event) : List Char := k.headName (k.popped e)

theorem headName_congr {ready : List Tid} (h : ∀ t, (k'.task t).name = (k.task t).name) :
    k'.headName ready = k.headName ready := by
  cases ready with
  | nil => rfl
  | cons t ts => exact h t

theorem dispatch_screen (h : dispatch k = .ok k') : k'.screen = k.screen ++ k.headName k.readyList := by
  obtain ⟨next, rest, hl, rfl⟩ := dispatch_ok h
  rw [hl]
  rfl

/-- A thread that blocks is not put back into the ready list. -/
theorem blocking_screen {k1 : Kernel} (h : schedule (k1.blocking .blocked) = .ok k') :
    k'.screen = k1.screen ++ k1.headName k1.readyList := by
  obtain ⟨-, ⟨hr, -, -⟩ | ⟨-, h⟩⟩ := schedule_ok h
  · simp [blocking, setStatus, setHere] at hr
  · rw [dispatch_screen h]
    show k1.screen ++ (k1.blocking .blocked).headName k1.readyList = _
    rw [headName_congr (k := k1)]
    intro t
    show ((k1.setStatus k1.cur .blocked).task t).name = _
    rw [setStatus_task]
    split <;> rfl

theorem semaDownLoop_screen {old : Bool} (h : semaDownLoop k l old = .ok k') :
    k'.screen = k.screen ++ k.headName (if k.value l = 0 then k.readyList else []) := by
  rcases semaDownLoop_ok h with ⟨hv, -, hs⟩ | ⟨hv, rfl⟩
  · rw [blocking_screen hs, if_pos hv]
    rfl
  · rw [if_neg (by omega)]
    exact (List.append_nil _).symm

theorem semaUp_screen (h : semaUp k l = .ok k') : k'.screen = k.screen := by
  obtain ⟨-, k1, h1, rfl⟩ := semaUp_ok h
  rcases wakeFirst_ok h1 with ⟨-, rfl⟩ | ⟨t, rest, -, -, rfl⟩
  · rfl
  · rfl

theorem ioqWait_screen {q : IoqId} {side : Side} (h : ioqWait k q side = .ok k') :
    k'.screen = k.screen ++ k.headName k.readyList := by
  obtain ⟨-, hs⟩ := ioqWait_ok h
  have hscreen := blocking_screen hs
  exact hscreen

theorem wakeupIfAny_screen {q : IoqId} {side : Side} (h : wakeupIfAny k q side = .ok k') :
    k'.screen = k.screen := by
  rcases wakeupIfAny_ok h with rfl | ⟨t, -, -, rfl⟩
  · rfl
  · rfl

theorem timer_screen (hr : (k.task k.cur).status = .running) (h : step k .timer = .ok k') :
    k'.screen = k.screen ++ k.namePrinted .timer := by
  simp only [step] at h
  split at h
  · unfold intrTimerHandler at h
    rw [bind_eq_ok] at h
    obtain ⟨-, -, h⟩ := h
    unfold namePrinted popped
    split at h
    · rename_i h0
      rw [if_pos h0]
      have hstatus : (k.countTick.preempted.task k.cur).status = .running := by
        rw [show k.countTick.preempted.task = k.countTick.task from rfl, countTick_status]
        exact hr
      obtain ⟨-, ⟨-, -, h⟩ | ⟨hne, -⟩⟩ := schedule_ok h
      · rw [dispatch_screen h]
        show k.screen ++ k.countTick.preempted.requeue.headName (k.readyList ++ [k.cur]) = _
        rw [headName_congr (k := k)]
        intro t
        rw [requeue_task, show k.countTick.preempted.task = k.countTick.task from rfl, countTick_task]
        split <;> split <;> rfl
      · exact absurd hstatus hne
    · rename_i h0
      rw [if_neg h0]
      cases h
      exact (List.append_nil _).symm
  · cases h

end Kernel

/-! ## Console calls -/

/-- The next statement is a `put_char` of a console call. -/
def Op.puts : Op → Bool
  | .console rest .put => !rest.isEmpty
  | _ => false

/-- The step is a `put_char` of the running thread's console call. -/
def Kernel.puts (k : Kernel) (e : Event) : Bool :=
  decide (e = .step ∧ k.here = { Ctx.idle with op := k.here.op }) && k.here.op.puts

def Op.isConsole : Op → Bool
  | .console _ _ => true
  | _ => false

/-- How a step that starts no console call and prints no character of one moves the running thread. -/
inductive Op.ConsoleGoes : Op → Op → Prop
  | stay (op : Op) : Op.ConsoleGoes op op
  | outside (op op' : Op) : op.isConsole = false → op'.isConsole = false → Op.ConsoleGoes op op'
  | acquire (rest : List Char) : Op.ConsoleGoes (.console rest .acquire) (.console rest .put)
  | done : Op.ConsoleGoes (.console [] .put) (.console [] .release)
  | release (rest : List Char) : Op.ConsoleGoes (.console rest .release) .idle

/-- What a step does to the console calls and the screen. -/
inductive ConsoleMove (k k' : Kernel) : Event → Prop
  | start (str : List Char) : k.here.op = .idle → (k'.ctx k.cur).op = .console str .acquire →
      k'.screen = k.screen → ConsoleMove k k' (.call (.console str))
  | put (c : Char) (rest : List Char) : k.At (.console (c :: rest) .put) →
      (k'.ctx k.cur).op = .console rest .put → k'.screen = k.screen ++ [c] → ConsoleMove k k' .step
  | other (e : Event) : (∀ str, e ≠ .call (.console str)) → k.puts e = false →
      k.here.op.ConsoleGoes (k'.ctx k.cur).op → k'.screen = k.screen ++ k.namePrinted e → ConsoleMove k k' e

namespace Kernel

variable {k k' : Kernel} {l l' : LockId} {c : Ctx}

theorem puts_of_at {op : Op} (ha : k.At op) (h : op.puts = false) : k.puts .step = false := by
  unfold puts
  rw [show k.here.op = op from congrArg Ctx.op ha, h, Bool.and_false]

/-- A thread in a nested call prints no character. -/
theorem puts_of_nested (h : k.here.resume ≠ none ∨ k.here.sema ≠ none ∨ k.here.lock ≠ none) {e : Event} :
    k.puts e = false := by
  have hn : ¬ k.At k.here.op := by
    intro ha
    rcases h with h | h | h
    · exact h (congrArg Ctx.resume ha)
    · exact h (congrArg Ctx.sema ha)
    · exact h (congrArg Ctx.lock ha)
  unfold puts
  rw [decide_eq_false fun h1 => hn h1.2, Bool.false_and]

/-- A thread in its own function, or in one of the kernel's that does not call `thread_block` next. -/
theorem namePrinted_of_at {op : Op} (ha : k.At op) (h : op.isWait = false) : k.namePrinted .step = [] := by
  have hb : k.blocks .step = false := by
    unfold blocks
    rw [show k.here = _ from ha]
    cases op with
    | ioqGetchar q pc => cases pc <;> first | rfl | cases h
    | ioqPutchar q byte pc => cases pc <;> first | rfl | cases h
    | _ => rfl
  unfold namePrinted popped
  simp [hb, headName]

/-- A step of the running thread between statements of the kernel's functions. -/
theorem move_at {op : Op} (ha : k.At op) (hput : op.puts = false) (hw : op.isWait = false)
    (hctx : k'.ctx k.cur = c) (hgo : op.ConsoleGoes c.op) (hscreen : k'.screen = k.screen) :
    ConsoleMove k k' .step := by
  refine .other .step (fun _ h => by cases h) (puts_of_at ha hput) ?_ ?_
  · rw [hctx, show k.here.op = op from congrArg Ctx.op ha]
    exact hgo
  · rw [namePrinted_of_at ha hw, List.append_nil]
    exact hscreen

/-- Inside a call of `sema_down`, `lock_acquire` or `lock_release`, or on the way back from `switch_to`. -/
theorem move_inside {e : Event} (he : ∀ str, e ≠ .call (.console str)) (hp : k.puts e = false)
    (hop : (k'.ctx k.cur).op = k.here.op) (hscreen : k'.screen = k.screen ++ k.namePrinted e) :
    ConsoleMove k k' e := by
  refine .other e he hp ?_ hscreen
  rw [hop]
  exact .stay _

/-- A call of a function that is not of the console. -/
theorem move_call {f : Call} (ha : k.At .idle) (hf : ∀ str, f ≠ .console str)
    (hop : (k'.ctx k.cur).op.isConsole = false) (hscreen : k'.screen = k.screen ++ k.namePrinted (.call f)) :
    ConsoleMove k k' (.call f) := by
  refine .other _ ?_ ?_ ?_ hscreen
  · intro str he
    injection he with he
    exact hf str he
  · unfold puts
    rw [decide_eq_false (fun h => Event.noConfusion h.1), Bool.false_and]
  · refine .outside _ _ ?_ hop
    rw [show k.here.op = .idle from congrArg Ctx.op ha]
    rfl

/-- Such a call that only writes the caller's own call stack, apart from what has no part in this. -/
theorem move_setHere {f : Call} (ha : k.At .idle) (hf : ∀ str, f ≠ .console str)
    (hctx : k'.ctx = Function.update k.ctx k.cur c) (hc : c.op.isConsole = false) (hscreen : k'.screen = k.screen)
    (hname : k.namePrinted (.call f) = []) : ConsoleMove k k' (.call f) := by
  refine move_call ha hf ?_ ?_
  · rw [hctx, Function.update_self]
    exact hc
  · rw [hname, List.append_nil]
    exact hscreen

theorem namePrinted_of_blocks {e : Event} (he : e ≠ .timer) (hb : k.blocks e = false) : k.namePrinted e = [] := by
  unfold namePrinted popped
  cases e with
  | timer => exact absurd rfl he
  | _ => simp [hb, headName]

/-- **What a step does to the console calls.** -/
theorem step_moves {e : Event} (hq : Queues k) (ht : ThreadInv k) (hs : step k e = .ok k') :
    ConsoleMove k k' e := by
  have htrans := step_trans hs
  cases htrans with
  | tick =>
    obtain ⟨place, hplace⟩ := hq
    exact move_inside (fun _ h => by cases h) (by simp [puts]) rfl (timer_screen (status_cur hplace) hs)
  | preempt _ _ hp =>
    obtain ⟨place, hplace⟩ := hq
    refine move_inside (fun _ h => by cases h) (by simp [puts]) ?_ (timer_screen (status_cur hplace) hs)
    rw [schedule_frame hp]
    show (Function.update k.ctx k.cur _ k.cur).op = _
    rw [Function.update_self]
    rfl
  | keyLost q byte =>
    exact move_inside (fun _ h => by cases h) (by simp [puts]) rfl (List.append_nil _).symm
  | key q byte k1 _ _ hp =>
    refine move_inside (fun _ h => by cases h) (by simp [puts]) ?_ ?_
    · exact congrArg Ctx.op (congrFun (wakeupIfAny_ctx hp).1 k.cur)
    · exact (wakeupIfAny_screen hp).trans (List.append_nil _).symm
  | intrEnable ha =>
    exact move_call ha (fun _ h => by cases h) (congrArg Op.isConsole (congrArg Ctx.op ha)) (List.append_nil _).symm
  | intrDisable ha =>
    exact move_call ha (fun _ h => by cases h) (congrArg Op.isConsole (congrArg Ctx.op ha)) (List.append_nil _).symm
  | callDown l _ ha hd =>
    refine move_call ha (fun _ h => by cases h) ?_ ?_
    · rw [semaDownLoop_op (k := k) hd rfl rfl, show k.here.op = .idle from congrArg Ctx.op ha]
      rfl
    · rw [semaDownLoop_screen hd]
      show k.screen ++ headName _ (if k.value l = 0 then k.readyList else []) = _
      unfold namePrinted popped blocks
      simp only [decide_eq_true_eq]
      rfl
  | callUp l _ ha hu =>
    refine move_call ha (fun _ h => by cases h) ?_ ?_
    · rw [(semaUp_ctx hu).1]
      exact congrArg Op.isConsole (congrArg Ctx.op ha)
    · exact (semaUp_screen hu).trans (List.append_nil _).symm
  | callAcquire l ha => exact move_setHere ha (fun _ h => by cases h) rfl rfl rfl rfl
  | callRelease l ha => exact move_setHere ha (fun _ h => by cases h) rfl rfl rfl rfl
  | callGetchar q ha _ => exact move_setHere ha (fun _ h => by cases h) rfl rfl rfl rfl
  | callPutchar q byte ha _ => exact move_setHere ha (fun _ h => by cases h) rfl rfl rfl rfl
  | callCreate n ha _ => exact move_setHere ha (fun _ h => by cases h) rfl rfl rfl rfl
  | callConsole str ha =>
    refine .start str (congrArg Ctx.op ha) ?_ rfl
    show (Function.update k.ctx k.cur _ k.cur).op = _
    rw [Function.update_self]
  | resume r hr =>
    refine move_inside (fun _ h => by cases h) (puts_of_nested (.inl (by simp [hr]))) ?_ ?_
    · show (Function.update k.ctx k.cur _ k.cur).op = _
      rw [Function.update_self]
    · rw [namePrinted_of_blocks (fun h => by cases h) (by simp [blocks, hr])]
      exact (List.append_nil _).symm
  | redown l old _ hr hsema hd =>
    have hputs : k.puts .step = false := puts_of_nested (.inr (.inl (by simp [hsema])))
    refine move_inside (fun _ h => by cases h) hputs (semaDownLoop_op hd rfl rfl) ?_
    rw [semaDownLoop_screen hd]
    simp [namePrinted, popped, blocks, hr, hsema]
  | lockDown l _ hr hsema hlock hd =>
    have hputs : k.puts .step = false := puts_of_nested (.inr (.inr (by simp [hlock])))
    refine move_inside (fun _ h => by cases h) hputs (semaDownLoop_op (k := k) hd rfl rfl) ?_
    rw [semaDownLoop_screen hd]
    simp [namePrinted, popped, blocks, hr, hsema, hlock]
    rfl
  | lockUp l _ hr hsema hlock hu =>
    refine move_inside (fun _ h => by cases h) (puts_of_nested (.inr (.inr (by simp [hlock])))) ?_ ?_
    · rw [(semaUp_ctx hu).1]
      show (Function.update k.ctx k.cur _ k.cur).op = _
      rw [Function.update_self]
    · rw [semaUp_screen hu, namePrinted_of_blocks (fun h => by cases h) (by simp [blocks, hr, hsema, hlock])]
      exact (List.append_nil _).symm
  | lockNext l pc plock next hr hsema hlock hdown hup hc =>
    refine move_inside (fun _ h => by cases h) (puts_of_nested (.inr (.inr (by simp [hlock])))) ?_ ?_
    · show (Function.update k.ctx k.cur _ k.cur).op = _
      rw [Function.update_self]
    · have hb : k.blocks .step = false := by
        unfold blocks
        rw [hr, hsema, hlock]
        cases pc with
        | acquireDown => exact absurd rfl hdown
        | _ => rfl
      rw [namePrinted_of_blocks (fun h => by cases h) hb]
      exact (List.append_nil _).symm
  | getWait q _ ha hw =>
    refine .other .step (fun _ h => by cases h) (puts_of_at ha rfl) ?_ ?_
    · rw [ioqWait_op hw, show k.here.op = _ from congrArg Ctx.op ha]
      exact .outside _ _ rfl rfl
    · rw [ioqWait_screen hw]
      unfold namePrinted popped blocks
      rw [show k.here = _ from ha]
      rfl
  | putWait q byte _ ha hw =>
    refine .other .step (fun _ h => by cases h) (puts_of_at ha rfl) ?_ ?_
    · rw [ioqWait_op hw, show k.here.op = _ from congrArg Ctx.op ha]
      exact .outside _ _ rfl rfl
    · rw [ioqWait_screen hw]
      unfold namePrinted popped blocks
      rw [show k.here = _ from ha]
      rfl
  | getAcquire q ha _ _ => exact move_at ha rfl rfl (Function.update_self _ _ _) (.outside _ _ rfl rfl) rfl
  | putAcquire q byte ha _ _ => exact move_at ha rfl rfl (Function.update_self _ _ _) (.outside _ _ rfl rfl) rfl
  | get q _ ha _ _ hb =>
    have hscreen := wakeupIfAny_screen hb
    refine move_at (c := { k.here with op := .idle }) ha rfl rfl ?_ (.outside _ _ rfl rfl) hscreen
    rw [(wakeupIfAny_ctx hb).1]
    exact Function.update_self _ _ _
  | put q byte _ ha _ _ hb =>
    have hscreen := wakeupIfAny_screen hb
    refine move_at (c := { k.here with op := .idle }) ha rfl rfl ?_ (.outside _ _ rfl rfl) hscreen
    rw [(wakeupIfAny_ctx hb).1]
    exact Function.update_self _ _ _
  | opRelease op op' l ha hrel =>
    have hctx : (callRelease k l op').ctx k.cur = { k.here with lock := some (l, .releaseAssert), op := op' } :=
      Function.update_self _ _ _
    cases op with
    | idle => cases hrel
    | ioqGetchar q pc =>
      cases pc <;> cases hrel
      exact move_at ha rfl rfl hctx (.outside _ _ rfl rfl) rfl
    | ioqPutchar q byte pc =>
      cases pc <;> cases hrel
      exact move_at ha rfl rfl hctx (.outside _ _ rfl rfl) rfl
    | create n pc =>
      cases pc <;> cases hrel
      exact move_at ha rfl rfl hctx (.outside _ _ rfl rfl) rfl
    | console rest pc =>
      cases pc <;> cases hrel
      exact move_at ha rfl rfl hctx (.release rest) rfl
  | pidReturn n ha =>
    exact move_at ha rfl rfl (pidReturn_here hq ht ha) (.outside _ _ rfl rfl) rfl
  | consoleAcquire rest ha =>
    have hctx : (callAcquire k .consoleLock (.console rest .put)).ctx k.cur =
        { k.here with lock := some (.consoleLock, .acquireTest), op := .console rest .put } :=
      Function.update_self _ _ _
    exact move_at ha rfl rfl hctx (.acquire rest) rfl
  | consolePut c rest ha =>
    refine .put c rest ha ?_ rfl
    show (Function.update k.ctx k.cur _ k.cur).op = _
    rw [Function.update_self]
  | consoleDone ha => exact move_at ha rfl rfl (Function.update_self _ _ _) .done rfl
  | pidAcquire n ha | pidLoad n ha | pidStore n _ ha | readyAssert n ha _ | readyAppend n ha
  | allAssert n ha _ | allAppend n ha | insert n ha _ _ =>
    exact move_at ha rfl rfl (Function.update_self _ _ _) (.outside _ _ rfl rfl) rfl

end Kernel

end MyOs
