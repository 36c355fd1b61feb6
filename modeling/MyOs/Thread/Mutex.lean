import MyOs.Thread.Scheduler
import MyOs.Thread.LockMoves

/-!
# Locks exclude each other's holders

What a run of the machine does to one lock `l` is a run of `LockMove`: a step either leaves the lock's view
as it is, or is one move of the running thread (`trans_view`).

    trans_uses      threads and the kernel's functions release `l` only while they hold it
    trans_view      every step of the machine is a move of the protocol, or none
    lock_excludes   mutual exclusion and exact nesting in every run
-/

namespace MyOs

/-! ## How threads use a lock -/

/-- What a run may do with `l`: its semaphore is only used by `lock_acquire` and `lock_release`, a thread
releases it only while it holds it, and nests fewer than `2 ^ 32` holds. -/
def LockUse (l : LockId) (k : Kernel) (e : Event) : Prop :=
  e ≠ .call (.semaDown l) ∧ e ≠ .call (.semaUp l) ∧
    (e = .call (.lockRelease l) → 0 < k.hist.held k.cur l) ∧
    (k.here.inAcquire l = true → k.hist.held k.cur l + 1 < 2 ^ 32)

instance (l : LockId) (k : Kernel) (e : Event) : Decidable (LockUse l k e) :=
  inferInstanceAs (Decidable (_ ∧ _ ∧ (_ → _) ∧ (_ → _)))

structure LockUses (k : Kernel) (l : LockId) : Prop where
  /-- A thread in `sema_down` was called by `lock_acquire` of the same lock, or does not use `l`. -/
  sema : ∀ t l' old, (k.ctx t).sema = some (l', old) →
    (k.ctx t).lock = some (l', .acquireDown) ∨ (k.ctx t).lock = none ∧ l' ≠ l
  /-- The kernel's own functions release `l` only after their `lock_acquire` has returned. -/
  needs : ∀ t, (k.ctx t).op.holds = some l → 0 < k.hist.held t l ∨ (k.ctx t).inAcquire l = true

namespace LockUses

variable {k k' : Kernel} {l l' : LockId} {c : Ctx}

theorem step (h : LockUses k l) (hctx : ∀ t, t ≠ k.cur → k'.ctx t = k.ctx t ∨ k'.ctx t = Ctx.new)
    (hheld : ∀ t, t ≠ k.cur → k'.hist.held t l = k.hist.held t l)
    (hsema : ∀ l' old, (k'.ctx k.cur).sema = some (l', old) →
      (k'.ctx k.cur).lock = some (l', .acquireDown) ∨ (k'.ctx k.cur).lock = none ∧ l' ≠ l)
    (hneeds : (k'.ctx k.cur).op.holds = some l →
      0 < k'.hist.held k.cur l ∨ (k'.ctx k.cur).inAcquire l = true) : LockUses k' l := by
  refine ⟨?_, ?_⟩
  · intro t l1 old hs
    by_cases ht : t = k.cur
    · subst ht
      exact hsema l1 old hs
    · rcases hctx t ht with he | he
      · rw [he] at hs ⊢
        exact h.sema t l1 old hs
      · rw [he] at hs
        cases hs
  · intro t hn
    by_cases ht : t = k.cur
    · subst ht
      exact hneeds hn
    · rcases hctx t ht with he | he
      · rw [he] at hn ⊢
        rw [hheld t ht]
        exact h.needs t hn
      · rw [he] at hn
        cases hn

/-- The running thread's call stack becomes `c`. -/
theorem own (h : LockUses k l) (hctx : k'.ctx = Function.update k.ctx k.cur c)
    (hheld : ∀ t, t ≠ k.cur → k'.hist.held t l = k.hist.held t l)
    (hsema : c.sema = none ∨ c.sema = k.here.sema ∧ c.lock = k.here.lock)
    (hneeds : c.op.holds = some l → c.inAcquire l = true ∨
      k.here.op.holds = some l ∧ k.hist.held k.cur l ≤ k'.hist.held k.cur l ∧
        (k.here.inAcquire l = true → c.inAcquire l = true)) : LockUses k' l := by
  have hc : k'.ctx k.cur = c := by rw [hctx, Function.update_self]
  refine h.step ?_ hheld ?_ ?_
  · intro t ht
    left
    rw [hctx, Function.update_of_ne ht]
  · intro l1 old hs
    rw [hc] at hs ⊢
    rcases hsema with hn | ⟨h1, h2⟩
    · rw [hn] at hs
      cases hs
    · rw [h1] at hs
      rw [h2]
      exact h.sema k.cur l1 old hs
  · intro hn
    rw [hc] at hn ⊢
    rcases hneeds hn with ha | ⟨h1, h2, h3⟩
    · exact .inr ha
    · rcases h.needs k.cur h1 with hp | ha
      · exact .inl (by omega)
      · exact .inr (h3 ha)

/-- A call stack that differs in where the thread resumes. -/
theorem same (h : LockUses k l) (hctx : k'.ctx = Function.update k.ctx k.cur c)
    (hheld : k'.hist.held = k.hist.held) (h1 : c.sema = k.here.sema) (h2 : c.lock = k.here.lock)
    (h3 : c.op = k.here.op) : LockUses k' l := by
  refine h.own hctx (fun _ _ => by rw [hheld]) (.inr ⟨h1, h2⟩) ?_
  intro hn
  refine .inr ⟨h3 ▸ hn, Nat.le_of_eq (by rw [hheld]), ?_⟩
  intro ha
  unfold Ctx.inAcquire Ctx.lockPc at ha ⊢
  rw [h2]
  exact ha

/-- Call stacks are as before, or new. -/
theorem fresh (h : LockUses k l) (hctx : ∀ t, k'.ctx t = k.ctx t ∨ k'.ctx t = Ctx.new)
    (hheld : k'.hist.held = k.hist.held) : LockUses k' l := by
  refine h.step (fun t _ => hctx t) (fun t _ => by rw [hheld]) ?_ ?_
  · intro l1 old hs
    rcases hctx k.cur with he | he
    · rw [he] at hs ⊢
      exact h.sema k.cur l1 old hs
    · rw [he] at hs
      cases hs
  · intro hn
    rw [hheld]
    rcases hctx k.cur with he | he
    · rw [he] at hn ⊢
      exact h.needs k.cur hn
    · rw [he] at hn
      cases hn

/-- A thread that needs the lock, and is not in `lock_acquire`, holds it. -/
theorem holds (h : LockUses k l) {t : Tid} (hop : (k.ctx t).op.holds = some l) (hlock : (k.ctx t).lock = none) :
    0 < k.hist.held t l := by
  rcases h.needs t hop with hp | hacq
  · exact hp
  · simp [Ctx.inAcquire, Ctx.lockPc, hlock] at hacq

/-- So does the running thread when it executes statements of such a function. -/
theorem holds_at (h : LockUses k l) {op : Op} (ha : k.At op) (ho : op.holds = some l) : 0 < k.hist.held k.cur l := by
  have hop : (k.ctx k.cur).op = op := congrArg Ctx.op ha
  refine h.holds ?_ (congrArg Ctx.lock ha)
  rw [hop]
  exact ho

theorem frame (h : LockUses k l) (hctx : k'.ctx = k.ctx) (hheld : k'.hist.held = k.hist.held) :
    LockUses k' l :=
  h.fresh (fun t => .inl (congrFun hctx t)) hheld

theorem semaDownLoop {old : Bool} (h : LockUses k l) (hheld : k'.hist.held = k.hist.held)
    (hlock : k.here.lock = some (l', .acquireDown) ∨ k.here.lock = none ∧ l' ≠ l)
    (hd : Kernel.semaDownLoop k l' old = .ok k') : LockUses k' l := by
  rcases Kernel.semaDownLoop_ctx hd with ⟨-, hx⟩ | ⟨-, hx⟩
  · have hc : k'.ctx k.cur =
        { k.here with sema := some (l', old), resume := some (.threadBlock k.intr) } := by
      rw [hx, Function.update_self]
    refine h.step ?_ (fun t _ => by rw [hheld]) ?_ ?_
    · intro t ht
      left
      rw [hx, Function.update_of_ne ht]
    · intro l1 old1 hs
      rw [hc] at hs ⊢
      cases hs
      exact hlock
    · rw [hc, hheld]
      exact h.needs k.cur
  · refine h.own hx (fun _ _ => by rw [hheld]) (.inl rfl) ?_
    intro hn
    refine .inr ⟨hn, Nat.le_of_eq (by rw [hheld]), ?_⟩
    intro ha
    unfold Ctx.inAcquire Ctx.lockPc at ha ⊢
    cases hl : k.here.lock with
    | none => simp [hl] at ha
    | some p =>
      by_cases hp : p.1 = l
      · simp [Ctx.semaReturn, hl, hp, LockPc.isAcquire]
      · simp [hl, hp] at ha

/-- A call of `lock_acquire(l')`; if the caller goes on to use `l`, it is `l'`. -/
theorem callAcquire {op : Op} (h : LockUses k l) (hs : k.here.sema = none)
    (hop : op.holds = some l → l' = l) : LockUses (Kernel.callAcquire k l' op) l := by
  refine h.own rfl (fun _ _ => rfl) (.inl hs) ?_
  intro hn
  left
  rw [hop hn]
  simp [Ctx.inAcquire, Ctx.lockPc, LockPc.isAcquire]

theorem callRelease {op : Op} (h : LockUses k l) (hs : k.here.sema = none) (hop : op.holds = none) :
    LockUses (Kernel.callRelease k l' op) l := by
  refine h.own rfl ?_ (.inl hs) ?_
  · intro t ht
    show (k.hist.setHeld k.cur l' _).held t l = _
    simp [History.setHeld, ht]
  · intro hn
    rw [hop] at hn
    cases hn

/-- A thread in its own function goes on at another statement of the kernel's. -/
theorem setOp {op : Op} (op' : Op) (h : LockUses k l) (ha : k.At op) (hctx : k'.ctx = (k.setOp op').ctx)
    (hheld : k'.hist.held = k.hist.held) (hop : op'.holds = some l → op.holds = some l) :
    LockUses k' l := by
  have hs : k.here.sema = none := congrArg Ctx.sema ha
  refine h.own hctx (fun _ _ => by rw [hheld]) (.inl hs) ?_
  intro hn
  right
  have ho : k.here.op = op := congrArg Ctx.op ha
  refine ⟨?_, Nat.le_of_eq (by rw [hheld]), id⟩
  rw [ho]
  exact hop hn

end LockUses

/-- `lock_acquire` stays `lock_acquire` until it returns. -/
theorem Kernel.lockCode_isAcquire {cur : Tid} {plock plock' : Lock} {pc pc' : LockPc}
    (h : Kernel.lockCode cur plock pc = .ok (plock', some pc')) (ha : pc.isAcquire = true) :
    pc'.isAcquire = true := by
  cases pc with
  | acquireTest =>
    simp only [Kernel.lockCode] at h
    split at h <;> (cases h; rfl)
  | assertFresh =>
    simp only [Kernel.lockCode, bind_eq_ok] at h
    obtain ⟨-, -, h⟩ := h
    cases h
    rfl
  | acquireDown | setHolder | incLoad =>
    cases h
    rfl
  | setRepeat | incStore => cases h
  | _ => cases ha

theorem Op.holds_of_releases {op op' : Op} {l : LockId} (h : op.releases = some (l, op')) :
    op.holds = some l ∧ op'.holds = none := by
  cases op with
  | idle => cases h
  | ioqGetchar q pc =>
    cases pc <;> cases h
    exact ⟨rfl, rfl⟩
  | ioqPutchar q byte pc =>
    cases pc <;> cases h
    exact ⟨rfl, rfl⟩
  | create n pc =>
    cases pc <;> cases h
    exact ⟨rfl, rfl⟩
  | console rest pc =>
    cases pc <;> cases h
    exact ⟨rfl, rfl⟩

namespace LockUses

variable {k k' : Kernel} {l l' : LockId}

theorem lockNext {pc : LockPc} {plock : Lock} {next : Option LockPc} (h : LockUses k l)
    (hs : k.here.sema = none) (hlock : k.here.lock = some (l', pc))
    (hc : Kernel.lockCode k.cur (k.lock l') pc = .ok (plock, next)) :
    LockUses (k.lockNext l' pc plock next) l := by
  have hheld : ∀ t, k.hist.held t l ≤ (Kernel.countHeld k l' pc next).held t l ∧
      (t ≠ k.cur → (Kernel.countHeld k l' pc next).held t l = k.hist.held t l) := by
    intro t
    unfold Kernel.countHeld
    split
    · by_cases ht : t = k.cur
      · subst ht
        by_cases hl : l' = l
        · subst hl
          simp [History.setHeld]
        · simp [History.setHeld, Ne.symm hl]
      · simp [History.setHeld, ht]
    · exact ⟨Nat.le_refl _, fun _ => rfl⟩
  have hcc : (k.lockNext l' pc plock next).ctx k.cur =
      { k.here with lock := next.map fun pc => (l', pc) } := by
    show Function.update k.ctx k.cur _ k.cur = _
    rw [Function.update_self]
  refine h.step ?_ (fun t ht => (hheld t).2 ht) ?_ ?_
  · intro t ht
    left
    show Function.update k.ctx k.cur _ t = _
    rw [Function.update_of_ne ht]
  · intro l1 old hs'
    rw [hcc] at hs'
    rw [show ({ k.here with lock := next.map fun pc => (l', pc) } : Ctx).sema = none from hs] at hs'
    cases hs'
  · intro hn
    rw [hcc] at hn ⊢
    rcases h.needs k.cur hn with hp | ha
    · left
      exact Nat.lt_of_lt_of_le hp (hheld k.cur).1
    · -- the thread is in lock_acquire(l): it stays there, or returns holding one more
      have hl : l' = l ∧ pc.isAcquire = true := by
        have ha' : k.here.inAcquire l = true := ha
        unfold Ctx.inAcquire Ctx.lockPc at ha'
        rw [hlock] at ha'
        by_cases hl : l' = l
        · simp [hl] at ha'
          exact ⟨hl, ha'⟩
        · simp [hl] at ha'
      obtain ⟨rfl, hacq⟩ := hl
      cases next with
      | none =>
        left
        show 0 < (Kernel.countHeld k l' pc none).held k.cur l'
        simp [Kernel.countHeld, hacq, History.setHeld]
      | some pc' =>
        right
        simp [Ctx.inAcquire, Ctx.lockPc, Kernel.lockCode_isAcquire hc hacq]

end LockUses

namespace Kernel

variable {k k' : Kernel} {l l' : LockId}

theorem semaDownLoop_held {old : Bool} (h : semaDownLoop k l' old = .ok k') :
    k'.hist.held = k.hist.held := by
  rcases semaDownLoop_ok h with ⟨-, -, hs⟩ | ⟨-, rfl⟩
  · rw [schedule_frame hs]
    rfl
  · rfl

theorem semaUp_held (h : semaUp k l' = .ok k') : k'.hist.held = k.hist.held := by
  obtain ⟨-, k1, h1, rfl⟩ := semaUp_ok h
  rcases wakeFirst_ok h1 with ⟨-, rfl⟩ | ⟨t, rest, -, -, rfl⟩
  · rfl
  · rfl

theorem wakeupIfAny_held {q : IoqId} {side : Side} (h : wakeupIfAny k q side = .ok k') :
    k'.hist.held = k.hist.held := by
  rcases wakeupIfAny_ok h with rfl | ⟨t, -, -, rfl⟩
  · rfl
  · rfl

theorem ioqWait_held {q : IoqId} {side : Side} (h : ioqWait k q side = .ok k') :
    k'.hist.held = k.hist.held := by
  obtain ⟨-, hs⟩ := ioqWait_ok h
  rw [schedule_frame hs]
  rfl

/-- Every step keeps how threads use the lock. -/
theorem trans_uses {e : Event} (h : LockUses k l) (hg : LockUse l k e) (hs : Trans k e k') :
    LockUses k' l := by
  cases hs with
  | tick => exact h.frame rfl rfl
  | preempt _ _ hs =>
    refine h.same (c := { k.here with resume := some .intrExit }) ?_ ?_ rfl rfl rfl
    · rw [schedule_frame hs]
      rfl
    · rw [schedule_frame hs]
      rfl
  | keyLost => exact h
  | key q byte k1 _ _ hp =>
    have hh := wakeupIfAny_held hp
    exact h.frame (wakeupIfAny_ctx hp).1 hh
  | intrEnable => exact h.frame rfl rfl
  | intrDisable => exact h.frame rfl rfl
  | callDown l' _ ha hd =>
    have hl : l' ≠ l := by
      rintro rfl
      exact hg.1 rfl
    have h1 : LockUses { k with intr := false } l := h.frame rfl rfl
    exact h1.semaDownLoop (semaDownLoop_held hd) (.inr ⟨congrArg Ctx.lock ha, hl⟩) hd
  | callUp l' _ _ hu => exact h.frame (semaUp_ctx hu).1 (semaUp_held hu)
  | callAcquire l' ha => exact h.callAcquire (congrArg Ctx.sema ha) (by simp [Op.holds])
  | callRelease l' ha => exact h.callRelease (congrArg Ctx.sema ha) rfl
  | callGetchar q ha _ => exact h.setOp _ ha rfl rfl (by simp [Op.holds])
  | callPutchar q byte ha _ => exact h.setOp _ ha rfl rfl (by simp [Op.holds])
  | callCreate n ha _ => exact h.setOp _ ha rfl rfl (by simp [Op.holds])
  | callConsole str ha => exact h.setOp _ ha rfl rfl (by simp [Op.holds])
  | resume r _ => exact h.same (c := { k.here with resume := none }) rfl rfl rfl rfl rfl
  | redown l' old _ _ hs hd => exact h.semaDownLoop (semaDownLoop_held hd) (h.sema k.cur l' old hs) hd
  | lockDown l' _ _ _ hl hd =>
    have h1 : LockUses { k with intr := false } l := h.frame rfl rfl
    exact h1.semaDownLoop (semaDownLoop_held hd) (.inl hl) hd
  | lockUp l' _ _ hs hl hu =>
    refine h.own (semaUp_ctx hu).1 (fun _ _ => by rw [semaUp_held hu]; rfl) (.inl hs) ?_
    intro hn
    refine .inr ⟨hn, Nat.le_of_eq (by rw [semaUp_held hu]; rfl), ?_⟩
    intro ha
    unfold Ctx.inAcquire Ctx.lockPc at ha
    rw [hl] at ha
    by_cases he : l' = l
    · simp [he, LockPc.isAcquire] at ha
    · simp [he] at ha
  | lockNext l' pc plock next _ hs hl _ _ hc => exact h.lockNext hs hl hc
  | getAcquire q ha _ _ => exact h.callAcquire (congrArg Ctx.sema ha) (by simp [Op.holds])
  | putAcquire q byte ha _ _ => exact h.callAcquire (congrArg Ctx.sema ha) (by simp [Op.holds])
  | get q _ ha _ _ hg =>
    have hh := wakeupIfAny_held hg
    exact h.setOp .idle ha (wakeupIfAny_ctx hg).1 hh (by simp [Op.holds])
  | put q byte _ ha _ _ hp =>
    have hh := wakeupIfAny_held hp
    exact h.setOp .idle ha (wakeupIfAny_ctx hp).1 hh (by simp [Op.holds])
  | getWait q _ ha hw =>
    have h1 : LockUses (k.setOp (.ioqGetchar q .release)) l := h.setOp _ ha rfl rfl (by simp [Op.holds])
    exact h1.same (ioqWait_ctx hw) (ioqWait_held hw) rfl rfl rfl
  | putWait q byte _ ha hw =>
    have h1 : LockUses (k.setOp (.ioqPutchar q byte .release)) l := h.setOp _ ha rfl rfl (by simp [Op.holds])
    exact h1.same (ioqWait_ctx hw) (ioqWait_held hw) rfl rfl rfl
  | opRelease op op' l' ha hrel =>
    exact h.callRelease (congrArg Ctx.sema ha) (Op.holds_of_releases hrel).2
  | pidAcquire n ha => exact h.callAcquire (congrArg Ctx.sema ha) (by simp [Op.holds])
  | pidLoad n ha => exact h.setOp _ ha rfl rfl id
  | pidStore n _ ha => exact h.setOp _ ha rfl rfl id
  | pidReturn n ha =>
    have h1 : LockUses (k.setOp (.create n (if n.process then .insert else .readyAssert))) l :=
      h.setOp _ ha rfl rfl (by split <;> simp [Op.holds])
    refine h1.fresh ?_ rfl
    intro t
    by_cases ht : t = n.pcb
    · right
      simp [initPcb, ht]
    · left
      simp [initPcb, ht]
  | readyAssert n ha _ => exact h.setOp _ ha rfl rfl (by simp [Op.holds])
  | readyAppend n ha => exact h.setOp _ ha rfl rfl (by simp [Op.holds])
  | allAssert n ha _ => exact h.setOp _ ha rfl rfl (by simp [Op.holds])
  | allAppend n ha => exact h.setOp _ ha rfl rfl (by simp [Op.holds])
  | insert n ha _ _ => exact h.setOp _ ha rfl rfl (by simp [Op.holds])
  | consoleAcquire rest ha => exact h.callAcquire (congrArg Ctx.sema ha) (by simp [Op.holds])
  | consolePut c rest ha => exact h.setOp _ ha rfl rfl id
  | consoleDone ha => exact h.setOp _ ha rfl rfl id

/-- Every step of the machine is a move of the protocol of `l`, or none. -/
theorem trans_view {e : Event} (hq : Queues k) (ht : ThreadInv k) (h : LockUses k l) (hg : LockUse l k e)
    (hs : Trans k e k') : k'.view l = k.view l ∨ LockMove k.cur (k.view l) (k'.view l) := by
  cases hs with
  | tick => exact .inl rfl
  | preempt _ _ hs =>
    left
    rw [view_schedule hs]
    exact view_congr rfl rfl rfl rfl rfl (fun _ => rfl) (lockPc_update rfl)
  | keyLost => exact .inl rfl
  | key q byte k1 _ _ hp =>
    have hv : k1.view l = Kernel.view { k with intr := false } l := view_putByte hp
    exact .inl hv
  | callDown l' _ ha hd =>
    have hl : l' ≠ l := by
      rintro rfl
      exact hg.1 rfl
    exact .inl (view_semaDown_ne hl (.inl (congrArg Ctx.lock ha)) hd)
  | callUp l' _ _ hu =>
    have hl : l' ≠ l := by
      rintro rfl
      exact hg.2.1 rfl
    exact .inl (view_semaUp_ne hl hu)
  | callAcquire l' ha => exact view_or_callAcquire (congrArg Ctx.lock ha)
  | callRelease l' ha =>
    refine view_or_callRelease (congrArg Ctx.lock ha) ?_
    rintro rfl
    exact hg.2.2.1 rfl
  | redown l' old _ _ hs hd =>
    by_cases hl : l' = l
    · subst hl
      rcases h.sema k.cur l' old hs with hlock | ⟨-, hne⟩
      · exact move_semaDownLoop hlock hd
      · exact absurd rfl hne
    · refine .inl (view_semaDownLoop_ne hl ?_ hd)
      rcases h.sema k.cur l' old hs with hlock | ⟨hlock, -⟩
      · exact .inr hlock
      · exact .inl hlock
  | lockDown l' _ _ _ hlock hd =>
    by_cases hl : l' = l
    · subst hl
      exact move_semaDown hlock hd
    · exact .inl (view_semaDown_ne hl (.inr hlock) hd)
  | lockUp l' _ _ _ hlock hu =>
    by_cases hl : l' = l
    · subst hl
      exact .inr (move_semaUp hlock hu)
    · left
      rw [view_semaUp_ne hl hu]
      exact view_setHere ((Ctx.lockPc_of_none rfl l).trans (Ctx.lockPc_of_ne hlock hl).symm)
  | lockNext l' pc plock next _ _ hlock hdown hup hc =>
    by_cases hl : l' = l
    · subst hl
      refine .inr (move_lockNext hlock hdown hup hc ?_)
      intro hacq
      refine hg.2.2.2 ?_
      simp [Ctx.inAcquire, Ctx.lockPc_of_some hlock, hacq]
    · exact .inl (view_lockNext_ne hl hlock)
  | getAcquire q ha _ _ => exact view_or_callAcquire (congrArg Ctx.lock ha)
  | putAcquire q byte ha _ _ => exact view_or_callAcquire (congrArg Ctx.lock ha)
  | pidAcquire n ha => exact view_or_callAcquire (congrArg Ctx.lock ha)
  | consoleAcquire rest ha => exact view_or_callAcquire (congrArg Ctx.lock ha)
  | opRelease op op' l' ha hrel =>
    refine view_or_callRelease (congrArg Ctx.lock ha) ?_
    rintro rfl
    -- the function acquired the lock before
    exact h.holds_at ha (Op.holds_of_releases hrel).1
  | get q _ _ _ _ hb => exact .inl ((view_getByte hb).trans (view_setHere rfl))
  | put q byte _ _ _ _ hb => exact .inl ((view_putByte hb).trans (view_setHere rfl))
  | getWait q _ _ hw => exact .inl ((view_ioqWait hw).trans (view_setHere rfl))
  | putWait q byte _ _ hw => exact .inl ((view_ioqWait hw).trans (view_setHere rfl))
  | pidReturn n ha =>
    obtain ⟨place, hplace⟩ := hq
    have hnew := pidReturn_new ht ha
    have hne : n.pcb ≠ k.cur := fun he => hnew (he ▸ cur_mem_threads hplace)
    left
    refine Eq.trans ?_ (view_setHere (k := k) (c := { k.here with
      op := .create n (if n.process then .insert else .readyAssert) }) rfl)
    refine view_congr rfl rfl rfl rfl rfl (fun _ => rfl) ?_
    intro t
    -- the new call stack is what the PCB page had all along
    by_cases htn : t = n.pcb
    · subst htn
      simp [initPcb, setOp, setHere, hne, ht.fresh n.pcb hnew]
    · simp [initPcb, setOp, setHere, htn]
  | intrEnable => exact .inl rfl
  | intrDisable => exact .inl rfl
  | _ => exact .inl (view_congr rfl rfl rfl rfl rfl (fun _ => rfl) (lockPc_update rfl))

/-! ## Every run -/

theorem boot_uses (mainThread : Tid) (value : LockId → Nat) (l : LockId) :
    LockUses (boot mainThread value) l := by
  have hctx : ∀ t, (boot mainThread value).ctx t = Ctx.idle ∨ (boot mainThread value).ctx t = Ctx.new := by
    intro t
    by_cases ht : t = mainThread
    · left
      simp [boot, ht]
    · right
      simp [boot, ht]
  refine ⟨?_, ?_⟩
  · intro t l' old hs
    rcases hctx t with he | he <;> (rw [he] at hs; cases hs)
  · intro t hn
    rcases hctx t with he | he <;> (rw [he] at hn; cases hn)

theorem boot_view (mainThread : Tid) (value : LockId → Nat) (l : LockId) (hv : value l = 1) :
    ((boot mainThread value).view l).Free := by
  refine ⟨hv, rfl, rfl, rfl, ?_⟩
  intro t
  refine ⟨rfl, .inl ?_⟩
  show ((boot mainThread value).ctx t).lockPc l = none
  by_cases ht : t = mainThread
  · simp [boot, ht, Ctx.lockPc, Ctx.idle]
  · simp [boot, ht, Ctx.lockPc, Ctx.new, Ctx.idle]

theorem run_lock {mainThread : Tid} {value : LockId → Nat} {es : List Event} (hv : value l = 1)
    (hr : Runs step (LockUse l) (boot mainThread value) es k) : (k.view l).Inv := by
  refine (Runs.invariant (fun k => Queues k ∧ ThreadInv k ∧ LockUses k l ∧ (k.view l).Inv) ?_ es _ k
    ⟨boot_queues mainThread value, boot_threads mainThread value, boot_uses mainThread value l,
      .inl (boot_view mainThread value l hv)⟩ hr).2.2.2
  rintro k1 e k2 ⟨hq, ht, hu, hi⟩ hg hs
  have htr := step_trans hs
  refine ⟨step_queues hq ht htr, step_threads hq ht htr, trans_uses hu hg htr, ?_⟩
  rcases trans_view hq ht hu hg htr with he | hm
  · rw [he]
    exact hi
  · exact hi.move hm

end Kernel

/-- What `lock_acquire` and `lock_release` promise about the lock `l`. -/
structure LockExcludes (k : Kernel) (l : LockId) : Prop where
  /-- At most one thread is between the return of its outermost `lock_acquire` and the start of the
  matching `lock_release`. -/
  exclusive : ∀ t u, 0 < k.hist.held t l → 0 < k.hist.held u l → t = u
  /-- The holder completed the last `sema_down` and has not done its `sema_up`. -/
  holder : ∀ t, (k.lock l).holder = some t → k.hist.lastDown l = some t ∧ t ∈ k.hist.owners l
  /-- Such a thread, when it is not in `lock_acquire` or `lock_release`, is the holder, and
  `holder_repeat_nr` counts its holds. -/
  nesting : ∀ t, k.hist.lastDown l = some t → t ∈ k.hist.owners l → (k.ctx t).lockPc l = none →
    (k.lock l).holder = some t ∧ (k.lock l).holderRepeatNr = k.hist.held t l
  /-- The value is 1 exactly when no thread is between a `sema_down` and its `sema_up`. -/
  value : k.value l = 1 ↔ k.hist.owners l = []

/-- **Mutual exclusion and exact nesting** of a lock in every run in which it is used as a lock. -/
theorem lock_excludes (mainThread : Tid) (value : LockId → Nat) (l : LockId) (hv : value l = 1)
    (es : List Event) (k : Kernel)
    (hr : Runs Kernel.step (LockUse l) (Kernel.boot mainThread value) es k) : LockExcludes k l := by
  have hi := Kernel.run_lock hv hr
  rcases hi with h | ⟨o, h⟩
  · refine ⟨?_, ?_, ?_, ?_⟩
    · intro t u ht _
      have h0 : k.hist.held t l = 0 := (h.outside t).1
      omega
    · intro t ht
      have hn : (k.lock l).holder = none := h.holder
      rw [hn] at ht
      cases ht
    · intro t _ ho
      have hn : k.hist.owners l = [] := h.owners
      rw [hn] at ho
      cases ho
    · have h1 : k.value l = 1 := h.value
      have h2 : k.hist.owners l = [] := h.owners
      rw [h1, h2]
      simp
  · have hown : k.hist.owners l = [o] := h.owners
    refine ⟨?_, ?_, ?_, ?_⟩
    · intro t u ht hu
      exact LockView.Inv.holder_unique (.inr ⟨o, h⟩) ht hu
    · intro t ht
      have hto : t = o := by
        by_contra hne
        exact h.holder_ne hne ht
      subst hto
      exact ⟨h.lastDown, by rw [hown]; simp⟩
    · intro t _ ho hpc
      rw [hown, List.mem_singleton] at ho
      subst ho
      have hat := h.owner
      have hpc' : (k.view l).pc t = none := hpc
      rw [hpc'] at hat
      exact ⟨hat.1, hat.2.1⟩
    · have h0 : k.value l = 0 := h.value
      rw [h0, hown]
      simp

/-- The main thread is preempted between its `sema_down` and the write of `holder`; another thread runs
into the lock, and the main thread goes on to hold it twice. -/
def contendedRun : List Event :=
  List.flatten [threadStartRun 1 8, [.call .intrEnable, .call (.lockAcquire (.lock 0)), .step, .step],
    List.replicate 32 .timer, [.step, .call (.lockAcquire (.lock 0)), .step, .step],
    List.replicate 4 .step, [.call (.lockAcquire (.lock 0)), .step, .step, .step]]

theorem lock_excludes_contended :
    ∃ k, Runs Kernel.step (LockUse (.lock 0)) (Kernel.boot 0 fun _ => 1) contendedRun k ∧
      (k.cur = 0 ∧ k.hist.held 0 (.lock 0) = 2 ∧ k.waiters (.lock 0) = [1]) ∧
      LockExcludes k (.lock 0) := by
  obtain ⟨k, hr, hk⟩ := Runs.exists_of_exec Kernel.step (G := LockUse (.lock 0))
    (fun k e => decide (LockUse (.lock 0) k e)) (fun _ _ h => of_decide_eq_true h)
    (Kernel.boot 0 fun _ => 1) contendedRun
    (fun k => (k.cur, k.hist.held 0 (.lock 0), k.waiters (.lock 0))) (b := (0, 2, [1])) (by decide +kernel)
  refine ⟨k, hr, by simpa using hk, ?_⟩
  exact lock_excludes 0 (fun _ => 1) (.lock 0) rfl contendedRun k hr

end MyOs
