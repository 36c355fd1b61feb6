import MyOs.Thread.Machine
import MyOs.Thread.LockProtocol

/-!
# What the machine does to one lock

`Kernel.view k l` is the lock `l` as the protocol sees it.  An operation either leaves it as it is
(`view_*`) or is one move of the running thread (`move_*`).
-/

namespace MyOs

namespace Kernel

def view (k : Kernel) (l : LockId) : LockView :=
  { holder := (k.lock l).holder
    repeatNr := (k.lock l).holderRepeatNr
    value := k.value l
    lastDown := k.hist.lastDown l
    owners := k.hist.owners l
    held := fun t => k.hist.held t l
    pc := fun t => (k.ctx t).lockPc l }

variable {k k' : Kernel} {l l' : LockId}

/-! ## Operations that leave the view as it is -/

theorem view_congr (hlock : (k'.lock l).holder = (k.lock l).holder)
    (hnr : (k'.lock l).holderRepeatNr = (k.lock l).holderRepeatNr) (hv : k'.value l = k.value l)
    (hd : k'.hist.lastDown l = k.hist.lastDown l) (ho : k'.hist.owners l = k.hist.owners l)
    (hh : ∀ t, k'.hist.held t l = k.hist.held t l)
    (hp : ∀ t, (k'.ctx t).lockPc l = (k.ctx t).lockPc l) : k'.view l = k.view l :=
  LockView.ext hlock hnr hv hd ho (funext hh) (funext hp)

theorem lockPc_update {c : Ctx} (hc : c.lockPc l = k.here.lockPc l) (t : Tid) :
    (Function.update k.ctx k.cur c t).lockPc l = (k.ctx t).lockPc l := by
  by_cases ht : t = k.cur
  · rw [ht, Function.update_self, hc]
    rfl
  · rw [Function.update_of_ne ht]

theorem view_setHere {c : Ctx} (hc : c.lockPc l = k.here.lockPc l) : (k.setHere c).view l = k.view l :=
  view_congr rfl rfl rfl rfl rfl (fun _ => rfl) (lockPc_update hc)

theorem view_schedule (h : schedule k = .ok k') : k'.view l = k.view l := by
  rw [schedule_frame h]
  rfl

theorem view_blocking (stat : TaskStatus) : (k.blocking stat).view l = k.view l :=
  view_congr rfl rfl rfl rfl rfl (fun _ => rfl) (lockPc_update rfl)

theorem lock_setSema (k : Kernel) (l l' : LockId) (psema : Semaphore) :
    ((k.setSema l psema).lock l').holder = (k.lock l').holder ∧
      ((k.setSema l psema).lock l').holderRepeatNr = (k.lock l').holderRepeatNr := by
  unfold setSema setLock
  by_cases h : l' = l
  · subst h
    simp
  · simp [h]

theorem view_enqueue {old : Bool} : ((k.retested l').enqueue l' old).view l = k.view l := by
  refine view_congr (lock_setSema k l' l _).1 (lock_setSema k l' l _).2 ?_ rfl rfl (fun _ => rfl)
    (lockPc_update rfl)
  show (k.setSema l' _).value l = k.value l
  rw [value_setSema]
  split
  · rename_i he
    rw [he]
    rfl
  · rfl

theorem view_wakeFirst (h : wakeFirst k l' = .ok k') : k'.view l = k.view l := by
  rcases wakeFirst_ok h with ⟨-, rfl⟩ | ⟨t, rest, -, -, rfl⟩
  · rfl
  · refine view_congr (lock_setSema k l' l _).1 (lock_setSema k l' l _).2 ?_ rfl rfl (fun _ => rfl)
      (fun _ => rfl)
    show (k.setSema l' _).value l = k.value l
    rw [value_setSema]
    split
    · rename_i he
      rw [he]
      rfl
    · rfl

theorem view_wakeupIfAny {q : IoqId} {side : Side} (h : wakeupIfAny k q side = .ok k') :
    k'.view l = k.view l := by
  rcases wakeupIfAny_ok h with rfl | ⟨t, -, -, rfl⟩
  · rfl
  · rfl

theorem view_ioqWait {q : IoqId} {side : Side} (h : ioqWait k q side = .ok k') : k'.view l = k.view l := by
  obtain ⟨-, hs⟩ := ioqWait_ok h
  rw [view_schedule hs, view_blocking]
  rfl

theorem view_raiseSema_ne (hl : l' ≠ l) : (k.raiseSema l').view l = k.view l := by
  refine view_congr (lock_setSema k l' l _).1 (lock_setSema k l' l _).2 ?_ rfl ?_ (fun _ => rfl)
    (fun _ => rfl)
  · show (k.setSema l' _).value l = k.value l
    rw [value_setSema, if_neg (Ne.symm hl)]
  · show Function.update k.hist.owners l' _ l = _
    rw [Function.update_of_ne (Ne.symm hl)]

theorem view_semaUp_ne (hl : l' ≠ l) (h : semaUp k l' = .ok k') : k'.view l = k.view l := by
  obtain ⟨-, k1, h1, rfl⟩ := semaUp_ok h
  rw [view_raiseSema_ne hl, view_wakeFirst h1]

/-- A `sema_down` of another lock. -/
theorem view_takeSema_ne {old : Bool} (hl : l' ≠ l)
    (hlock : k.here.lock = none ∨ k.here.lock = some (l', .acquireDown)) :
    ((k.retested l').takeSema l' old).view l = k.view l := by
  refine view_congr (lock_setSema k l' l _).1 (lock_setSema k l' l _).2 ?_ ?_ ?_ (fun _ => rfl) ?_
  · show (k.setSema l' _).value l = k.value l
    rw [value_setSema, if_neg (Ne.symm hl)]
  · show Function.update k.hist.lastDown l' _ l = _
    rw [Function.update_of_ne (Ne.symm hl)]
  · show Function.update k.hist.owners l' _ l = _
    rw [Function.update_of_ne (Ne.symm hl)]
  · refine lockPc_update ?_
    rcases hlock with hn | hs
    · have hn' : k.here.semaReturn.lock = none := by simp [Ctx.semaReturn, hn]
      exact (Ctx.lockPc_of_none hn' l).trans (Ctx.lockPc_of_none hn l).symm
    · have hs' : k.here.semaReturn.lock = some (l', .setHolder) := by simp [Ctx.semaReturn, hs]
      exact (Ctx.lockPc_of_ne hs' hl).trans (Ctx.lockPc_of_ne hs hl).symm

theorem view_semaDownLoop_ne {old : Bool} (hl : l' ≠ l)
    (hlock : k.here.lock = none ∨ k.here.lock = some (l', .acquireDown))
    (h : semaDownLoop k l' old = .ok k') : k'.view l = k.view l := by
  rcases semaDownLoop_ok h with ⟨-, -, hs⟩ | ⟨-, rfl⟩
  · rw [view_schedule hs, view_blocking, view_enqueue]
  · exact view_takeSema_ne hl hlock

/-! ## Operations that are moves -/

/-- `sema_down` in `lock_acquire(l)`: the thread waits, or it gets past. -/
theorem move_semaDownLoop {old : Bool} (hlock : k.here.lock = some (l, .acquireDown))
    (h : semaDownLoop k l old = .ok k') :
    k'.view l = k.view l ∨ LockMove k.cur (k.view l) (k'.view l) := by
  rcases semaDownLoop_ok h with ⟨-, -, hs⟩ | ⟨hv, rfl⟩
  · left
    rw [view_schedule hs, view_blocking, view_enqueue]
  · right
    have hmove := LockMove.down (t := k.cur) (v := k.view l) (Ctx.lockPc_of_some hlock) hv
    have heq : ((k.retested l).takeSema l old).view l = { k.view l with
        value := 0
        lastDown := some k.cur
        owners := k.cur :: (k.view l).owners
        pc := Function.update (k.view l).pc k.cur (some .setHolder) } := by
      refine LockView.ext (lock_setSema k l l _).1 (lock_setSema k l l _).2 ?_ ?_ ?_ rfl ?_
      · show (k.setSema l _).value l = 0
        rw [value_setSema, if_pos rfl]
        show k.value l - 1 = 0
        omega
      · show Function.update k.hist.lastDown l _ l = _
        rw [Function.update_self]
        rfl
      · show Function.update k.hist.owners l _ l = _
        rw [Function.update_self]
        rfl
      · funext t
        show (Function.update k.ctx k.cur k.here.semaReturn t).lockPc l =
          Function.update (k.view l).pc k.cur (some .setHolder) t
        by_cases ht : t = k.cur
        · rw [ht, Function.update_self, Function.update_self]
          exact Ctx.lockPc_of_some (by simp [Ctx.semaReturn, hlock])
        · rw [Function.update_of_ne ht, Function.update_of_ne ht]
          rfl
    rw [heq]
    exact hmove

theorem view_semaDown_ne (hl : l' ≠ l)
    (hlock : k.here.lock = none ∨ k.here.lock = some (l', .acquireDown))
    (h : semaDown k l' = .ok k') : k'.view l = k.view l :=
  view_semaDownLoop_ne (k := { k with intr := false }) hl hlock h

theorem move_semaDown (hlock : k.here.lock = some (l, .acquireDown)) (h : semaDown k l = .ok k') :
    k'.view l = k.view l ∨ LockMove k.cur (k.view l) (k'.view l) :=
  move_semaDownLoop (k := { k with intr := false }) hlock h

theorem view_getByte {q : IoqId} (h : getByte k q = .ok k') : k'.view l = k.view l :=
  view_wakeupIfAny (k := k.takeByte q) h

theorem view_putByte {q : IoqId} {byte : UInt8} (h : putByte k q byte = .ok k') : k'.view l = k.view l :=
  view_wakeupIfAny (k := k.storeByte q byte) h

/-- `sema_up` at the end of `lock_release(l)`. -/
theorem move_semaUp (hlock : k.here.lock = some (l, .releaseUp))
    (h : semaUp (k.setHere { k.here with lock := none }) l = .ok k') :
    LockMove k.cur (k.view l) (k'.view l) := by
  obtain ⟨hv, k1, h1, rfl⟩ := semaUp_ok h
  have hmove := LockMove.up (t := k.cur) (v := k.view l) (Ctx.lockPc_of_some hlock) hv
  have hw : k1.view l = (k.setHere { k.here with lock := none }).view l := view_wakeFirst h1
  have hcur : k1.cur = k.cur := by
    rcases wakeFirst_ok h1 with ⟨-, rfl⟩ | ⟨t, rest, -, -, rfl⟩
    · rfl
    · rfl
  have hv1 : k1.value l = 0 := (congrArg LockView.value hw).trans hv
  have heq : (k1.raiseSema l).view l = { k.view l with
      value := 1
      owners := (k.view l).owners.erase k.cur
      pc := Function.update (k.view l).pc k.cur none } := by
    refine LockView.ext ?_ ?_ ?_ ?_ ?_ ?_ ?_
    · exact (lock_setSema k1 l l _).1.trans (congrArg LockView.holder hw)
    · exact (lock_setSema k1 l l _).2.trans (congrArg LockView.repeatNr hw)
    · show (k1.setSema l _).value l = 1
      rw [value_setSema, if_pos rfl]
      show (k1.value l + 1) % 256 = 1
      rw [hv1]
    · have hlast : k1.hist.lastDown l = k.hist.lastDown l := congrArg LockView.lastDown hw
      exact hlast
    · show Function.update k1.hist.owners l ((k1.hist.owners l).erase k1.cur) l = _
      rw [Function.update_self, hcur]
      exact congrArg (fun v => v.owners.erase k.cur) hw
    · have hheld : (fun t => k1.hist.held t l) = fun t => k.hist.held t l := congrArg LockView.held hw
      exact hheld
    · have hpc : (fun t => (k1.ctx t).lockPc l) =
          fun t => ((k.setHere { k.here with lock := none }).ctx t).lockPc l := congrArg LockView.pc hw
      show (fun t => (k1.ctx t).lockPc l) = _
      rw [hpc]
      funext t
      show (Function.update k.ctx k.cur { k.here with lock := none } t).lockPc l = _
      by_cases ht : t = k.cur
      · rw [ht, Function.update_self]
        dsimp only
        rw [Function.update_self]
        rfl
      · rw [Function.update_of_ne ht]
        dsimp only
        rw [Function.update_of_ne ht]
        rfl
  rw [heq]
  exact hmove

/-- Counting a hold of one lock leaves the holds of another alone. -/
theorem held_setHeld_ne (h : History) {t : Tid} {n : Nat} (hl : l' ≠ l) (s : Tid) :
    (h.setHeld t l' n).held s l = h.held s l := by
  unfold History.setHeld
  by_cases hs : s = t
  · subst hs
    simp [Ne.symm hl]
  · simp [hs]

theorem held_setHeld (h : History) {t : Tid} {n : Nat} (s : Tid) :
    (h.setHeld t l n).held s l = Function.update (fun s => h.held s l) t n s := by
  unfold History.setHeld
  by_cases hs : s = t
  · subst hs
    simp
  · simp [hs]

theorem pc_setHere {c : Ctx} (k : Kernel) (l : LockId) :
    (fun t => ((k.setHere c).ctx t).lockPc l) =
      Function.update (fun t => (k.ctx t).lockPc l) k.cur (c.lockPc l) := by
  funext t
  show (Function.update k.ctx k.cur c t).lockPc l = _
  by_cases ht : t = k.cur
  · rw [ht, Function.update_self, Function.update_self]
  · rw [Function.update_of_ne ht, Function.update_of_ne ht]

theorem view_callAcquire_ne {op : Op} (hl : l' ≠ l) (hlock : k.here.lock = none) :
    (callAcquire k l' op).view l = k.view l :=
  view_setHere ((Ctx.lockPc_of_ne rfl hl).trans (Ctx.lockPc_of_none hlock l).symm)

theorem move_callAcquire {op : Op} (hlock : k.here.lock = none) :
    LockMove k.cur (k.view l) ((callAcquire k l op).view l) := by
  have heq : (callAcquire k l op).view l =
      { k.view l with pc := Function.update (k.view l).pc k.cur (some .acquireTest) } := by
    refine LockView.ext rfl rfl rfl rfl rfl rfl ?_
    refine (pc_setHere k l).trans ?_
    rw [Ctx.lockPc_of_some rfl]
    rfl
  rw [heq]
  exact LockMove.acquire (Ctx.lockPc_of_none hlock l)

theorem view_callRelease_ne {op : Op} (hl : l' ≠ l) (hlock : k.here.lock = none) :
    (callRelease k l' op).view l = k.view l := by
  refine view_congr rfl rfl rfl rfl rfl (held_setHeld_ne k.hist hl) (lockPc_update ?_)
  exact (Ctx.lockPc_of_ne rfl hl).trans (Ctx.lockPc_of_none hlock l).symm

theorem move_callRelease {op : Op} (hlock : k.here.lock = none) (hheld : 0 < k.hist.held k.cur l) :
    LockMove k.cur (k.view l) ((callRelease k l op).view l) := by
  have heq : (callRelease k l op).view l = { k.view l with
      pc := Function.update (k.view l).pc k.cur (some .releaseAssert)
      held := Function.update (k.view l).held k.cur ((k.view l).held k.cur - 1) } := by
    refine LockView.ext rfl rfl rfl rfl rfl ?_ ?_
    · funext t
      exact held_setHeld k.hist t
    · refine (pc_setHere k l).trans ?_
      rw [Ctx.lockPc_of_some rfl]
      rfl
  rw [heq]
  exact LockMove.release (Ctx.lockPc_of_none hlock l) hheld

/-- A call of `lock_acquire`, of `l` or of another lock. -/
theorem view_or_callAcquire {op : Op} (hlock : k.here.lock = none) :
    (callAcquire k l' op).view l = k.view l ∨ LockMove k.cur (k.view l) ((callAcquire k l' op).view l) := by
  by_cases hl : l' = l
  · subst hl
    exact .inr (move_callAcquire hlock)
  · exact .inl (view_callAcquire_ne hl hlock)

theorem view_or_callRelease {op : Op} (hlock : k.here.lock = none)
    (hheld : l' = l → 0 < k.hist.held k.cur l) :
    (callRelease k l' op).view l = k.view l ∨ LockMove k.cur (k.view l) ((callRelease k l' op).view l) := by
  by_cases hl : l' = l
  · subst hl
    exact .inr (move_callRelease hlock (hheld rfl))
  · exact .inl (view_callRelease_ne hl hlock)

theorem view_lockNext_ne {pc : LockPc} {plock : Lock} {next : Option LockPc} (hl : l' ≠ l)
    (hlock : k.here.lock = some (l', pc)) : (k.lockNext l' pc plock next).view l = k.view l := by
  have hk : (k.lockNext l' pc plock next).lock l = k.lock l := by
    show Function.update k.lock l' plock l = k.lock l
    rw [Function.update_of_ne (Ne.symm hl)]
  have hh : ∀ t, (countHeld k l' pc next).held t l = k.hist.held t l := by
    intro t
    unfold countHeld
    split
    · exact held_setHeld_ne k.hist hl t
    · rfl
  have hd : (countHeld k l' pc next).lastDown = k.hist.lastDown ∧
      (countHeld k l' pc next).owners = k.hist.owners := by
    unfold countHeld
    split <;> exact ⟨rfl, rfl⟩
  refine view_congr (congrArg Lock.holder hk) (congrArg Lock.holderRepeatNr hk) ?_
    (congrFun hd.1 l) (congrFun hd.2 l) hh (lockPc_update ?_)
  · show ((k.lockNext l' pc plock next).lock l).semaphore.value = _
    rw [hk]
    rfl
  · have hpc : (k.setLock l' plock).here.lockPc l = none := Ctx.lockPc_of_ne hlock hl
    rw [hpc]
    cases next with
    | none => rfl
    | some pc' => exact Ctx.lockPc_of_ne rfl hl

theorem move_lockNext {pc : LockPc} {plock : Lock} {next : Option LockPc}
    (hlock : k.here.lock = some (l, pc)) (hdown : pc ≠ .acquireDown) (hup : pc ≠ .releaseUp)
    (hc : lockCode k.cur (k.lock l) pc = .ok (plock, next))
    (hd : pc.isAcquire = true → k.hist.held k.cur l + 1 < 2 ^ 32) :
    LockMove k.cur (k.view l) ((k.lockNext l pc plock next).view l) := by
  have hk : (k.lockNext l pc plock next).lock l = plock := by
    show Function.update k.lock l plock l = plock
    rw [Function.update_self]
  have hh : ∀ t, (countHeld k l pc next).held t l =
      Function.update (fun s => k.hist.held s l) k.cur (heldAfter (k.hist.held k.cur l) pc next) t := by
    intro t
    unfold countHeld heldAfter
    split
    · exact held_setHeld k.hist t
    · exact (congrFun (Function.update_eq_self k.cur (fun s => k.hist.held s l)) t).symm
  have hlo : (countHeld k l pc next).lastDown = k.hist.lastDown ∧
      (countHeld k l pc next).owners = k.hist.owners := by
    unfold countHeld
    split <;> exact ⟨rfl, rfl⟩
  have heq : (k.lockNext l pc plock next).view l = { k.view l with
      holder := plock.holder
      repeatNr := plock.holderRepeatNr
      pc := Function.update (k.view l).pc k.cur next
      held := Function.update (k.view l).held k.cur (heldAfter ((k.view l).held k.cur) pc next) } := by
    refine LockView.ext (congrArg Lock.holder hk) (congrArg Lock.holderRepeatNr hk) ?_
      (congrFun hlo.1 l) (congrFun hlo.2 l) (funext hh) ?_
    · show ((k.lockNext l pc plock next).lock l).semaphore.value = (k.lock l).semaphore.value
      rw [hk, lockCode_semaphore hc]
    · refine (pc_setHere (k.setLock l plock) l).trans ?_
      cases next with
      | none => rfl
      | some pc' =>
        rw [Ctx.lockPc_of_some rfl]
        rfl
  rw [heq]
  exact LockMove.code pc (k.lock l) plock next (Ctx.lockPc_of_some hlock) hdown hup rfl rfl hc hd

end Kernel

end MyOs
