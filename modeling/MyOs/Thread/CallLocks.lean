import MyOs.Thread.Asserts

/-!
# The locks of a call stack

    trans_locks     a call stack names the locks it named before the step, and those of the event
-/

namespace MyOs

def Op.locks : Op → List LockId
  | .idle => []
  | .ioqGetchar q _ => [.ioqLock q]
  | .ioqPutchar q _ _ => [.ioqLock q]
  | .create _ _ => [.pidLock]
  | .console _ _ => [.consoleLock]

/-- The locks the calls of a stack work on. -/
def Ctx.locks (c : Ctx) : List LockId :=
  (c.sema.map Prod.fst).toList ++ ((c.lock.map Prod.fst).toList ++ c.op.locks)

/-- The locks a thread names when it makes a call. -/
def Call.locks : Call → List LockId
  | .intrEnable | .intrDisable => []
  | .semaDown l | .semaUp l | .lockAcquire l | .lockRelease l => [l]
  | .ioqGetchar q => [.ioqLock q]
  | .ioqPutchar q _ => [.ioqLock q]
  | .create _ => [.pidLock]
  | .console _ => [.consoleLock]

def Event.locks : Event → List LockId
  | .call c => c.locks
  | _ => []

namespace Kernel

variable {k k' : Kernel} {e : Event} {l : LockId}

theorem locks_setOp {op : Op} (op' : Op) (ha : k.At op) (ho : ∀ l ∈ op'.locks, l ∈ op.locks ∨ l ∈ e.locks) :
    ∀ l ∈ ((k.setOp op').ctx k.cur).locks, l ∈ k.here.locks ∨ l ∈ e.locks := by
  intro l hl
  rw [show k.here = _ from ha]
  simp only [setOp, setHere, Function.update_self, show k.here = _ from ha, Ctx.idle, Ctx.locks] at hl ⊢
  exact ho l hl

theorem locks_callAcquire {op op' : Op} {l' : LockId} (ha : k.At op)
    (ho : ∀ l, l = l' ∨ l ∈ op'.locks → l ∈ op.locks ∨ l ∈ e.locks) :
    ∀ l ∈ ((callAcquire k l' op').ctx k.cur).locks, l ∈ k.here.locks ∨ l ∈ e.locks := by
  intro l hl
  rw [show k.here = _ from ha]
  simp only [callAcquire, setHere, Function.update_self, show k.here = _ from ha, Ctx.idle, Ctx.locks] at hl ⊢
  exact ho l (by simpa using hl)

theorem locks_callRelease {op op' : Op} {l' : LockId} (ha : k.At op)
    (ho : ∀ l, l = l' ∨ l ∈ op'.locks → l ∈ op.locks ∨ l ∈ e.locks) :
    ∀ l ∈ ((callRelease k l' op').ctx k.cur).locks, l ∈ k.here.locks ∨ l ∈ e.locks := by
  intro l hl
  rw [show k.here = _ from ha]
  simp only [callRelease, setHere, Function.update_self, show k.here = _ from ha, Ctx.idle, Ctx.locks] at hl ⊢
  exact ho l (by simpa using hl)

theorem locks_semaDownLoop {k1 : Kernel} {l' : LockId} {old : Bool} (hd : semaDownLoop k1 l' old = .ok k')
    (hctx : k1.ctx = k.ctx) (hcur : k1.cur = k.cur) (hl' : l' ∈ k.here.locks ∨ l' ∈ e.locks) :
    ∀ l ∈ (k'.ctx k.cur).locks, l ∈ k.here.locks ∨ l ∈ e.locks := by
  have hhere : k1.here = k.here := by
    unfold here
    rw [hctx, hcur]
  intro l hl
  rcases semaDownLoop_ctx hd with ⟨-, hx⟩ | ⟨-, hx⟩
  · rw [hx, hcur, Function.update_self, hhere] at hl
    rcases List.mem_cons.mp hl with rfl | hl
    · exact hl'
    · left
      exact List.mem_append_right _ hl
  · rw [hx, hcur, Function.update_self, hhere] at hl
    left
    refine List.mem_append_right _ ?_
    simp only [Ctx.semaReturn, Ctx.locks, Option.map_none, Option.toList_none, List.nil_append,
      Option.map_map] at hl
    exact hl

theorem Op.locks_of_releases {op op' : Op} {l' : LockId} (h : op.releases = some (l', op')) :
    ∀ l, l = l' ∨ l ∈ op'.locks → l ∈ op.locks := by
  intro l hl
  cases op with
  | idle => cases h
  | ioqGetchar q pc =>
    cases pc <;> cases h
    simpa [Op.locks] using hl
  | ioqPutchar q byte pc =>
    cases pc <;> cases h
    simpa [Op.locks] using hl
  | create n pc =>
    cases pc <;> cases h
    simpa [Op.locks] using hl
  | console rest pc =>
    cases pc <;> cases h
    simpa [Op.locks] using hl

/-- A call stack names the locks it named before, and those of the event. -/
theorem trans_locks (hs : Trans k e k') : ∀ l ∈ (k'.ctx k.cur).locks, l ∈ k.here.locks ∨ l ∈ e.locks := by
  have hsame : k'.ctx = k.ctx → ∀ l ∈ (k'.ctx k.cur).locks, l ∈ k.here.locks ∨ l ∈ e.locks := by
    intro hx l hl
    rw [hx] at hl
    exact .inl hl
  have hown : ∀ c : Ctx, k'.ctx = Function.update k.ctx k.cur c → (∀ l ∈ c.locks, l ∈ k.here.locks) →
      ∀ l ∈ (k'.ctx k.cur).locks, l ∈ k.here.locks ∨ l ∈ e.locks := by
    intro c hx hc l hl
    rw [hx, Function.update_self] at hl
    exact .inl (hc l hl)
  have hresume : ∀ (r : Option Resume) (c : Ctx), ∀ l ∈ ({ c with resume := r } : Ctx).locks, l ∈ c.locks :=
    fun _ _ _ hl => hl
  have hlock : ∀ {l' : LockId} {pc : LockPc} {c : Ctx}, c.lock = some (l', pc) → l' ∈ c.locks := by
    intro l' pc c hc
    simp [Ctx.locks, hc]
  cases hs with
  | tick | keyLost | intrEnable | intrDisable => exact hsame rfl
  | preempt _ _ hs =>
    refine hown { k.here with resume := some .intrExit } ?_ (hresume _ _)
    rw [schedule_frame hs]
    rfl
  | key q byte k1 _ _ hp => exact hsame (wakeupIfAny_ctx hp).1
  | callDown l _ _ hd => exact locks_semaDownLoop hd rfl rfl (.inr (List.mem_singleton.mpr rfl))
  | callUp l _ _ hu => exact hsame (semaUp_ctx hu).1
  | callAcquire l ha => exact locks_callAcquire ha (by simp [Op.locks, Event.locks, Call.locks])
  | callRelease l ha => exact locks_callRelease ha (by simp [Op.locks, Event.locks, Call.locks])
  | callGetchar q ha _ => exact locks_setOp _ ha (fun _ hl => .inr hl)
  | callPutchar q byte ha _ => exact locks_setOp _ ha (fun _ hl => .inr hl)
  | callCreate n ha _ => exact locks_setOp (.create n .pidAcquire) ha (fun _ hl => .inr hl)
  | callConsole str ha => exact locks_setOp _ ha (fun _ hl => .inr hl)
  | resume r _ => exact hown { k.here with resume := none } rfl (hresume _ _)
  | redown l old _ _ hs hd =>
    refine locks_semaDownLoop hd rfl rfl (.inl ?_)
    simp [Ctx.locks, hs]
  | lockDown l _ _ _ hl hd => exact locks_semaDownLoop hd rfl rfl (.inl (hlock hl))
  | lockUp l _ _ _ hl hu =>
    refine hown { k.here with lock := none } (semaUp_ctx hu).1 ?_
    intro l' hl'
    simp only [Ctx.locks, Option.map_none, Option.toList_none, List.nil_append, List.mem_append] at hl' ⊢
    rcases hl' with hl' | hl'
    · exact .inl hl'
    · exact .inr (.inr hl')
  | lockNext l pc plock next _ _ hl _ _ _ =>
    refine hown { k.here with lock := next.map fun pc => (l, pc) } rfl ?_
    intro l' hl'
    have hmem := hlock hl
    cases next with
    | none =>
      simp only [Ctx.locks, Option.map_none, Option.toList_none, List.nil_append, List.mem_append] at hl' ⊢
      rcases hl' with hl' | hl'
      · exact .inl hl'
      · exact .inr (.inr hl')
    | some pc' =>
      simp only [Ctx.locks, hl] at hl' ⊢
      exact hl'
  | getAcquire q ha _ _ => exact locks_callAcquire ha (by simp [Op.locks])
  | putAcquire q byte ha _ _ => exact locks_callAcquire ha (by simp [Op.locks])
  | get q _ ha _ _ hg =>
    intro l hl
    rw [(wakeupIfAny_ctx hg).1] at hl
    exact locks_setOp .idle ha (by simp [Op.locks]) l hl
  | put q byte _ ha _ _ hp =>
    intro l hl
    rw [(wakeupIfAny_ctx hp).1] at hl
    exact locks_setOp .idle ha (by simp [Op.locks]) l hl
  | getWait q _ ha hw =>
    intro l hl
    rw [ioqWait_ctx hw] at hl
    have hset := locks_setOp (e := .step) (.ioqGetchar q .release) ha (fun _ h => .inl h) l
    simp only [setOp, setHere, here, Function.update_self] at hl hset
    exact hset hl
  | putWait q byte _ ha hw =>
    intro l hl
    rw [ioqWait_ctx hw] at hl
    have hset := locks_setOp (e := .step) (.ioqPutchar q byte .release) ha (fun _ h => .inl h) l
    simp only [setOp, setHere, here, Function.update_self] at hl hset
    exact hset hl
  | opRelease op op' l ha hrel =>
    exact locks_callRelease ha (fun l' hl' => .inl (Op.locks_of_releases hrel l' hl'))
  | pidAcquire n ha => exact locks_callAcquire ha (by simp [Op.locks])
  | pidReturn n ha =>
    intro l hl
    by_cases hp : k.cur = n.pcb
    · have hx : (initPcb (k.setOp (.create n (if n.process then .insert else .readyAssert))) n).ctx k.cur =
          Ctx.new := by
        rw [hp]
        exact Function.update_self _ _ _
      rw [hx] at hl
      cases hl
    · have hx : (initPcb (k.setOp (.create n (if n.process then .insert else .readyAssert))) n).ctx k.cur =
          (k.setOp (.create n (if n.process then .insert else .readyAssert))).ctx k.cur :=
        Function.update_of_ne hp _ _
      rw [hx] at hl
      exact locks_setOp (.create n (if n.process then .insert else .readyAssert)) ha (fun _ hm => .inl hm) l hl
  | pidLoad n ha => exact locks_setOp (.create n (.pidStore k.nextPid)) ha (fun _ h => .inl h)
  | pidStore n _ ha => exact locks_setOp (.create n .pidRelease) ha (fun _ h => .inl h)
  | readyAssert n ha _ => exact locks_setOp (.create n .readyAppend) ha (fun _ h => .inl h)
  | readyAppend n ha => exact locks_setOp (.create n .allAssert) ha (fun _ h => .inl h)
  | allAssert n ha _ => exact locks_setOp (.create n .allAppend) ha (fun _ h => .inl h)
  | allAppend n ha => exact locks_setOp .idle ha (by simp [Op.locks])
  | insert n ha _ _ => exact locks_setOp .idle ha (by simp [Op.locks])
  | consoleAcquire rest ha => exact locks_callAcquire ha (by simp [Op.locks])
  | consolePut c rest ha => exact locks_setOp (.console rest .put) ha (fun _ h => .inl h)
  | consoleDone ha => exact locks_setOp (.console [] .release) ha (fun _ h => .inl h)

end Kernel

end MyOs
