import MyOs.Thread.Asserts

/-!
# A lock only the kernel's own functions use

A function of the kernel that takes a lock calls `lock_acquire` once, and `lock_release` once before it
returns.  So in a run in which no thread's own function uses the lock it is never nested, and it is used as
`LockUse` asks.

    trans_turn         what a step does with the lock
    KernelLock.step    what holds of it in every run
-/

namespace MyOs

/-! ## What a step does with the lock -/

/-- No thread's own function uses `l`. -/
def KernelOnly (l : LockId) (e : Event) : Prop :=
  e ≠ .call (.semaDown l) ∧ e ≠ .call (.semaUp l) ∧ e ≠ .call (.lockAcquire l) ∧ e ≠ .call (.lockRelease l)

instance (l : LockId) (e : Event) : Decidable (KernelOnly l e) := inferInstanceAs (Decidable (_ ∧ _ ∧ _ ∧ _))

/-- How far a thread is with `l`: it is in a function that needs the lock now, it is in `lock_acquire`, and
the number of its holds. -/
structure LockAt where
  uses : Bool
  acquiring : Bool
  held : Nat

/-- A function that needs the lock has called `lock_acquire` once and not yet `lock_release`. -/
structure LockAt.Fits (s : LockAt) : Prop where
  held : s.held ≤ (s.uses && !s.acquiring).toNat
  acquiring : s.acquiring = true → s.uses = true

inductive LockTurn : LockAt → LockAt → Prop
  | same (s : LockAt) : LockTurn s s
  | enter (n : Nat) : LockTurn ⟨false, false, n⟩ ⟨true, true, n⟩
  | acquired (uses : Bool) (n : Nat) : LockTurn ⟨uses, true, n⟩ ⟨uses, false, n + 1⟩
  | leave (n : Nat) : LockTurn ⟨true, false, n⟩ ⟨false, false, n - 1⟩

theorem LockTurn.fits {s s' : LockAt} (h : LockTurn s s') (hs : s.Fits) : s'.Fits := by
  obtain ⟨hheld, hacq⟩ := hs
  cases h with
  | same => exact ⟨hheld, hacq⟩
  | enter n => exact ⟨hheld, fun _ => rfl⟩
  | acquired uses n =>
    have hu : uses = true := hacq rfl
    subst hu
    refine ⟨?_, fun h => by cases h⟩
    have h0 : n ≤ 0 := hheld
    show n + 1 ≤ 1
    omega
  | leave n =>
    refine ⟨?_, fun h => by cases h⟩
    have h1 : n ≤ 1 := hheld
    show n - 1 ≤ 0
    omega

/-- A function that needs the lock all along does not lose it. -/
theorem LockTurn.held {s s' : LockAt} (h : LockTurn s s') (hu : s'.uses = true) : s.held ≤ s'.held := by
  cases h with
  | same => exact Nat.le_refl _
  | enter => exact Nat.le_refl _
  | acquired => exact Nat.le_succ _
  | leave => cases hu

namespace Kernel

variable {k k' : Kernel} {l l' : LockId} {c : Ctx}

def lockAt (k : Kernel) (l : LockId) (t : Tid) : LockAt where
  uses := (k.ctx t).op.holds = some l
  acquiring := (k.ctx t).inAcquire l
  held := k.hist.held t l

theorem lockAt_congr {t : Tid} (hctx : k'.ctx t = k.ctx t) (hheld : k'.hist.held t l = k.hist.held t l) :
    k'.lockAt l t = k.lockAt l t := by
  unfold lockAt
  rw [hctx, hheld]

/-- A step counts holds for the running thread only. -/
theorem trans_held {e : Event} (hs : Trans k e k') {t : Tid} (hne : t ≠ k.cur) :
    k'.hist.held t = k.hist.held t := by
  have hset : ∀ (l : LockId) (n : Nat), (k.hist.setHeld k.cur l n).held t = k.hist.held t :=
    fun l n => Function.update_of_ne hne _ _
  cases hs with
  | preempt _ _ hs =>
    rw [schedule_frame hs]
    rfl
  | key q byte k1 _ _ hp =>
    show k1.hist.held t = _
    rw [wakeupIfAny_held hp]
    rfl
  | callDown l _ _ hd => rw [semaDownLoop_held hd]
  | callUp l _ _ hu => rw [semaUp_held hu]
  | callRelease l _ => exact hset l _
  | redown l old _ _ _ hd => rw [semaDownLoop_held hd]
  | lockDown l _ _ _ _ hd => rw [semaDownLoop_held hd]
  | lockUp l _ _ _ _ hu =>
    rw [semaUp_held hu]
    rfl
  | lockNext l pc plock next =>
    show (countHeld k l pc next).held t = _
    unfold countHeld
    split
    · exact hset l _
    · rfl
  | get q _ _ _ _ hb =>
    rw [wakeupIfAny_held hb]
    rfl
  | put q byte _ _ _ _ hb =>
    rw [wakeupIfAny_held hb]
    rfl
  | getWait q _ _ hw =>
    rw [ioqWait_held hw]
    rfl
  | putWait q byte _ _ hw =>
    rw [ioqWait_held hw]
    rfl
  | opRelease op op' l _ _ => exact hset l _
  | _ => rfl

/-- The running thread's call stack becomes `c`, and nothing happens to `l`. -/
theorem turn_same (hctx : k'.ctx k.cur = c) (hheld : k'.hist.held k.cur l = k.hist.held k.cur l)
    (hop : c.op.holds = some l ↔ k.here.op.holds = some l) (hacq : c.inAcquire l = k.here.inAcquire l) :
    LockTurn (k.lockAt l k.cur) (k'.lockAt l k.cur) := by
  have he : k'.lockAt l k.cur = k.lockAt l k.cur := by
    unfold lockAt
    rw [hctx, hheld, hacq]
    simp only [hop]
    rfl
  rw [he]
  exact .same _

/-- A round of `sema_down` happens outside `l`, or inside its `lock_acquire`. -/
theorem turn_semaDown {k1 : Kernel} {old : Bool} (h : semaDownLoop k1 l' old = .ok k')
    (hctx : k1.ctx = k.ctx) (hcur : k1.cur = k.cur) (hheld : k1.hist.held = k.hist.held)
    (hlock : k.here.lock = none ∨ ∃ l1, k.here.lock = some (l1, .acquireDown)) :
    LockTurn (k.lockAt l k.cur) (k'.lockAt l k.cur) := by
  have hh : k'.hist.held k.cur l = k.hist.held k.cur l := by rw [semaDownLoop_held h, hheld]
  rcases semaDownLoop_ctx h with ⟨-, hx⟩ | ⟨-, hx⟩
  · refine turn_same (c := { k.here with sema := some (l', old), resume := some (.threadBlock k1.intr) }) ?_ hh
      Iff.rfl rfl
    rw [hx, hcur, Function.update_self]
    unfold here
    rw [hctx, hcur]
  · refine turn_same (c := k.here.semaReturn) ?_ hh Iff.rfl ?_
    · rw [hx, hcur, Function.update_self]
      unfold here
      rw [hctx, hcur]
    · unfold Ctx.inAcquire Ctx.lockPc Ctx.semaReturn
      rcases hlock with hn | ⟨l1, hl1⟩
      · simp [hn]
      · by_cases hl : l1 = l <;> simp [hl1, hl, LockPc.isAcquire]

/-- `lock_acquire` and `lock_release` do not turn into each other. -/
theorem lockCode_isAcquire_eq {cur : Tid} {plock plock' : Lock} {pc pc' : LockPc}
    (h : lockCode cur plock pc = .ok (plock', some pc')) : pc'.isAcquire = pc.isAcquire := by
  cases hpc : pc.isAcquire with
  | true => exact lockCode_isAcquire h hpc
  | false =>
    cases pc with
    | releaseTest =>
      simp only [lockCode] at h
      split at h <;> (cases h; rfl)
    | releaseAssert | assertOne =>
      simp only [lockCode, bind_eq_ok] at h
      obtain ⟨-, -, h⟩ := h
      cases h
      rfl
    | decLoad | clearHolder | clearRepeat =>
      cases h
      rfl
    | decStore | releaseUp => cases h
    | _ => cases hpc

theorem turn_lockNext {pc : LockPc} {plock : Lock} {next : Option LockPc}
    (hlock : k.here.lock = some (l', pc)) (hc : lockCode k.cur (k.lock l') pc = .ok (plock, next)) :
    LockTurn (k.lockAt l k.cur) ((k.lockNext l' pc plock next).lockAt l k.cur) := by
  have hctx : (k.lockNext l' pc plock next).ctx k.cur =
      { k.here with lock := next.map fun pc => (l', pc) } := Function.update_self _ _ _
  by_cases hl : l' = l
  · subst hl
    have hacq : k.here.inAcquire l' = pc.isAcquire := by
      simp [Ctx.inAcquire, Ctx.lockPc_of_some hlock]
    cases next with
    | some pc' =>
      refine turn_same hctx ?_ Iff.rfl ?_
      · show (countHeld k l' pc (some pc')).held k.cur l' = _
        simp [countHeld]
      · rw [hacq, ← lockCode_isAcquire_eq hc]
        simp [Ctx.inAcquire, Ctx.lockPc]
    | none =>
      cases hpc : pc.isAcquire with
      | false =>
        refine turn_same hctx ?_ Iff.rfl ?_
        · show (countHeld k l' pc none).held k.cur l' = _
          simp [countHeld, hpc]
        · rw [hacq, hpc]
          rfl
      | true =>
        -- the outermost statement of lock_acquire: the caller holds one more
        have h1 : k.lockAt l' k.cur =
            ⟨decide (k.here.op.holds = some l'), true, k.hist.held k.cur l'⟩ := by
          rw [← hpc, ← hacq]
          rfl
        have h2 : (k.lockNext l' pc plock none).lockAt l' k.cur =
            ⟨decide (k.here.op.holds = some l'), false, k.hist.held k.cur l' + 1⟩ := by
          have hh : (countHeld k l' pc none).held k.cur l' = k.hist.held k.cur l' + 1 := by
            simp [countHeld, hpc, History.setHeld]
          unfold lockAt
          rw [hctx, ← hh]
          rfl
        rw [h1, h2]
        exact .acquired _ _
  · refine turn_same hctx ?_ Iff.rfl ?_
    · show (countHeld k l' pc next).held k.cur l = _
      unfold countHeld
      split
      · simp [History.setHeld, Ne.symm hl]
      · rfl
    · unfold Ctx.inAcquire
      rw [Ctx.lockPc_of_ne hlock hl]
      cases next <;> simp [Ctx.lockPc, hl]

/-- A function of the kernel calls `lock_acquire(l')`. -/
theorem turn_callAcquire {op op' : Op} (ha : k.At op) (hop : op.holds = none) (hop' : op'.holds = some l') :
    LockTurn (k.lockAt l k.cur) ((callAcquire k l' op').lockAt l k.cur) := by
  have hctx : (callAcquire k l' op').ctx k.cur = { k.here with lock := some (l', .acquireTest), op := op' } :=
    Function.update_self _ _ _
  have hhere : k.ctx k.cur = { Ctx.idle with op := op } := ha
  by_cases hl : l' = l
  · subst hl
    have h1 : k.lockAt l' k.cur = ⟨false, false, k.hist.held k.cur l'⟩ := by
      unfold lockAt
      rw [hhere]
      simp [hop, Ctx.inAcquire, Ctx.lockPc, Ctx.idle]
    have h2 : (callAcquire k l' op').lockAt l' k.cur = ⟨true, true, k.hist.held k.cur l'⟩ := by
      unfold lockAt
      rw [hctx]
      simp [hop', Ctx.inAcquire, Ctx.lockPc, LockPc.isAcquire]
      rfl
    rw [h1, h2]
    exact .enter _
  · refine turn_same hctx rfl ?_ ?_
    · show op'.holds = some l ↔ (k.ctx k.cur).op.holds = some l
      rw [hhere, hop']
      simp [hop, hl]
    · show _ = (k.ctx k.cur).inAcquire l
      rw [hhere]
      simp [Ctx.inAcquire, Ctx.lockPc, Ctx.idle, hl]

/-- A function of the kernel calls `lock_release(l')`. -/
theorem turn_callRelease {op op' : Op} (ha : k.At op) (hrel : op.releases = some (l', op')) :
    LockTurn (k.lockAt l k.cur) ((callRelease k l' op').lockAt l k.cur) := by
  obtain ⟨hop, hop'⟩ := Op.holds_of_releases hrel
  have hctx : (callRelease k l' op').ctx k.cur =
      { k.here with lock := some (l', .releaseAssert), op := op' } := Function.update_self _ _ _
  have hhere : k.ctx k.cur = { Ctx.idle with op := op } := ha
  by_cases hl : l' = l
  · subst hl
    have h1 : k.lockAt l' k.cur = ⟨true, false, k.hist.held k.cur l'⟩ := by
      unfold lockAt
      rw [hhere]
      simp [hop, Ctx.inAcquire, Ctx.lockPc, Ctx.idle]
    have h2 : (callRelease k l' op').lockAt l' k.cur = ⟨false, false, k.hist.held k.cur l' - 1⟩ := by
      have hh : (callRelease k l' op').hist.held k.cur l' = k.hist.held k.cur l' - 1 := by
        simp [callRelease, History.setHeld]
      unfold lockAt
      rw [hctx, hh]
      simp [hop', Ctx.inAcquire, Ctx.lockPc, LockPc.isAcquire]
    rw [h1, h2]
    exact .leave _
  · refine turn_same hctx ?_ ?_ ?_
    · simp [callRelease, History.setHeld, Ne.symm hl]
    · show op'.holds = some l ↔ (k.ctx k.cur).op.holds = some l
      rw [hhere, hop']
      simp [hop, hl]
    · show _ = (k.ctx k.cur).inAcquire l
      rw [hhere]
      simp [Ctx.inAcquire, Ctx.lockPc, Ctx.idle, hl]

/-- A thread in its own function goes on at another statement of the kernel's. -/
theorem turn_setOp {op : Op} (op' : Op) (ha : k.At op) (hctx : k'.ctx = (k.setOp op').ctx)
    (hheld : k'.hist.held = k.hist.held) (hop : op'.holds = op.holds) :
    LockTurn (k.lockAt l k.cur) (k'.lockAt l k.cur) := by
  have hhere : k.here.op = op := congrArg Ctx.op ha
  refine turn_same (c := { k.here with op := op' }) ?_ (by rw [hheld]) ?_ rfl
  · rw [hctx]
    exact Function.update_self _ _ _
  · rw [hhere]
    exact Iff.of_eq (congrArg (· = some l) hop)

/-- **What a step does with a lock** that only the kernel's own functions use. -/
theorem trans_turn {e : Event} (hq : Queues k) (ht : ThreadInv k) (hu : LockUses k l) (hg : KernelOnly l e)
    (hs : Trans k e k') : LockTurn (k.lockAt l k.cur) (k'.lockAt l k.cur) := by
  cases hs with
  | preempt _ _ hs =>
    refine turn_same (c := { k.here with resume := some .intrExit }) ?_ ?_ Iff.rfl rfl
    · rw [schedule_frame hs]
      exact Function.update_self _ _ _
    · rw [schedule_frame hs]
      rfl
  | key q byte k1 _ _ hp =>
    refine turn_same (c := k.here) ?_ ?_ Iff.rfl rfl
    · exact congrFun (wakeupIfAny_ctx hp).1 k.cur
    · exact congrFun (congrFun (wakeupIfAny_held hp) k.cur) l
  | callDown l' _ ha hd => exact turn_semaDown hd rfl rfl rfl (.inl (congrArg Ctx.lock ha))
  | callUp l' _ _ hup =>
    refine turn_same (c := k.here) ?_ ?_ Iff.rfl rfl
    · rw [(semaUp_ctx hup).1]
      rfl
    · rw [semaUp_held hup]
  | callAcquire l' ha =>
    have hl : l' ≠ l := by
      rintro rfl
      exact hg.2.2.1 rfl
    refine turn_same (c := { k.here with lock := some (l', .acquireTest), op := .idle }) ?_ rfl ?_ ?_
    · exact Function.update_self _ _ _
    · rw [show k.here.op = .idle from congrArg Ctx.op ha]
    · rw [show k.here = _ from ha]
      simp [Ctx.inAcquire, Ctx.lockPc, Ctx.idle, hl]
  | callRelease l' ha =>
    have hl : l' ≠ l := by
      rintro rfl
      exact hg.2.2.2 rfl
    refine turn_same (c := { k.here with lock := some (l', .releaseAssert), op := .idle }) ?_ ?_ ?_ ?_
    · exact Function.update_self _ _ _
    · simp [callRelease, History.setHeld, Ne.symm hl]
    · rw [show k.here.op = .idle from congrArg Ctx.op ha]
    · rw [show k.here = _ from ha]
      simp [Ctx.inAcquire, Ctx.lockPc, Ctx.idle, hl]
  | resume r _ =>
    exact turn_same (c := { k.here with resume := none }) (Function.update_self _ _ _) rfl Iff.rfl rfl
  | redown l' old _ _ hs hd =>
    refine turn_semaDown hd rfl rfl rfl ?_
    rcases hu.sema k.cur l' old hs with hlock | ⟨hlock, -⟩
    · exact .inr ⟨l', hlock⟩
    · exact .inl hlock
  | lockDown l' _ _ _ hlock hd => exact turn_semaDown hd rfl rfl rfl (.inr ⟨l', hlock⟩)
  | lockUp l' _ _ _ hlock hup =>
    refine turn_same (c := { k.here with lock := none }) ?_ ?_ Iff.rfl ?_
    · rw [(semaUp_ctx hup).1]
      exact Function.update_self _ _ _
    · rw [semaUp_held hup]
      rfl
    · by_cases hl : l' = l <;> simp [Ctx.inAcquire, Ctx.lockPc, hlock, hl, LockPc.isAcquire]
  | lockNext l' pc plock next _ _ hlock _ _ hc => exact turn_lockNext hlock hc
  | getAcquire q ha _ _ => exact turn_callAcquire ha rfl rfl
  | putAcquire q byte ha _ _ => exact turn_callAcquire ha rfl rfl
  | pidAcquire n ha => exact turn_callAcquire ha rfl rfl
  | consoleAcquire rest ha => exact turn_callAcquire ha rfl rfl
  | opRelease op op' l' ha hrel => exact turn_callRelease ha hrel
  | get q _ ha _ _ hb =>
    have hh := wakeupIfAny_held hb
    exact turn_setOp .idle ha (wakeupIfAny_ctx hb).1 hh rfl
  | put q byte _ ha _ _ hb =>
    have hh := wakeupIfAny_held hb
    exact turn_setOp .idle ha (wakeupIfAny_ctx hb).1 hh rfl
  | getWait q _ ha hw =>
    refine turn_same (c := { k.here with op := .ioqGetchar q .release, resume := some (.threadBlock k.intr) })
      ?_ ?_ ?_ rfl
    · rw [ioqWait_ctx hw]
      simp [setHere, here]
    · rw [ioqWait_held hw]
      rfl
    · rw [show k.here.op = _ from congrArg Ctx.op ha]
      rfl
  | putWait q byte _ ha hw =>
    refine turn_same (c := { k.here with op := .ioqPutchar q byte .release, resume := some (.threadBlock k.intr) })
      ?_ ?_ ?_ rfl
    · rw [ioqWait_ctx hw]
      simp [setHere, here]
    · rw [ioqWait_held hw]
      rfl
    · rw [show k.here.op = _ from congrArg Ctx.op ha]
      rfl
  | tick | keyLost | intrEnable | intrDisable => exact turn_same (c := k.here) rfl rfl Iff.rfl rfl
  | callGetchar q ha _ => exact turn_setOp (.ioqGetchar q .loop) ha rfl rfl rfl
  | callPutchar q byte ha _ => exact turn_setOp (.ioqPutchar q byte .loop) ha rfl rfl rfl
  | callCreate n ha _ => exact turn_setOp (.create n .pidAcquire) ha rfl rfl rfl
  | callConsole str ha => exact turn_setOp (.console str .acquire) ha rfl rfl rfl
  | pidLoad n ha => exact turn_setOp (.create n (.pidStore k.nextPid)) ha rfl rfl rfl
  | pidStore n nextPid ha => exact turn_setOp (.create n .pidRelease) ha rfl rfl rfl
  | pidReturn n ha =>
    refine turn_same (pidReturn_here hq ht ha) rfl ?_ rfl
    rw [show k.here.op = _ from congrArg Ctx.op ha]
    split <;> simp [Op.holds]
  | readyAssert n ha _ => exact turn_setOp (.create n .readyAppend) ha rfl rfl rfl
  | readyAppend n ha => exact turn_setOp (.create n .allAssert) ha rfl rfl rfl
  | allAssert n ha _ => exact turn_setOp (.create n .allAppend) ha rfl rfl rfl
  | allAppend n ha => exact turn_setOp .idle ha rfl rfl rfl
  | insert n ha _ _ => exact turn_setOp .idle ha rfl rfl rfl
  | consolePut c rest ha => exact turn_setOp (.console rest .put) ha rfl rfl rfl
  | consoleDone ha => exact turn_setOp (.console [] .release) ha rfl rfl rfl

end Kernel

/-! ## The lock in every run -/

/-- What holds of a lock that only the kernel's own functions use. -/
structure KernelLock (k : Kernel) (l : LockId) : Prop where
  queues : Queues k
  threads : ThreadInv k
  uses : LockUses k l
  view : (k.view l).Inv
  fits : ∀ t, (k.lockAt l t).Fits

namespace KernelLock

variable {k k' : Kernel} {l : LockId} {e : Event}

/-- Such a lock is never nested. -/
theorem lockUse (h : KernelLock k l) (hg : KernelOnly l e) : LockUse l k e := by
  refine ⟨hg.1, hg.2.1, fun he => absurd he hg.2.2.2, ?_⟩
  intro hacq
  have hfits := (h.fits k.cur).held
  have ha : (k.lockAt l k.cur).acquiring = true := hacq
  rw [ha, Bool.not_true, Bool.and_false] at hfits
  have h0 : k.hist.held k.cur l ≤ 0 := hfits
  omega

theorem step (h : KernelLock k l) (hg : KernelOnly l e) (hs : Kernel.Trans k e k') : KernelLock k' l := by
  refine ⟨Kernel.step_queues h.queues h.threads hs, Kernel.step_threads h.queues h.threads hs,
    Kernel.trans_uses h.uses (h.lockUse hg) hs, ?_, ?_⟩
  · rcases Kernel.trans_view h.queues h.threads h.uses (h.lockUse hg) hs with he | hm
    · rw [he]
      exact h.view
    · exact h.view.move hm
  · intro t
    by_cases ht : t = k.cur
    · subst ht
      exact (Kernel.trans_turn h.queues h.threads h.uses hg hs).fits (h.fits k.cur)
    · have he : k'.lockAt l t = k.lockAt l t :=
        Kernel.lockAt_congr (Kernel.trans_ctx h.threads hs ht) (congrFun (Kernel.trans_held hs ht) l)
      rw [he]
      exact h.fits t

theorem boot {mainThread : Tid} {value : LockId → Nat} (hv : value l = 1) :
    KernelLock (Kernel.boot mainThread value) l := by
  refine ⟨Kernel.boot_queues mainThread value, Kernel.boot_threads mainThread value,
    Kernel.boot_uses mainThread value l, .inl (Kernel.boot_view mainThread value l hv), ?_⟩
  intro t
  refine ⟨Nat.zero_le _, ?_⟩
  intro ha
  have hctx : (Kernel.boot mainThread value).ctx t = Ctx.idle ∨ (Kernel.boot mainThread value).ctx t = Ctx.new := by
    by_cases ht : t = mainThread
    · left
      simp [Kernel.boot, ht]
    · right
      simp [Kernel.boot, ht]
  have ha' : ((Kernel.boot mainThread value).ctx t).inAcquire l = true := ha
  rcases hctx with hc | hc <;> (rw [hc] at ha'; cases ha')

end KernelLock

end MyOs
