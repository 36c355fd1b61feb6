import MyOs.Thread.Mutex

/-!
# allocate_pid: when pids are distinct

`allocate_pid` increments `next_pid` under `pid_lock`, releases the lock, and then reads `next_pid` again for
its result.  Between the increment and that read a thread is *counted*: it has taken a number and has not
returned one.  A second increment while somebody is counted gives both threads the later number.

    allocatePid_distinct    while no thread increments with another one counted, the results are
                            1, 2, 3, … in order
    allocatePid_repeats     a tick between the release and the read, and two threads get pid 4
-/

namespace MyOs

/-- Between its increment of `next_pid` and the return of `allocate_pid`. -/
def Op.counted : Op → Bool
  | .create _ .pidRelease | .create _ .pidReturn => true
  | _ => false

/-- About to store the incremented `next_pid`. -/
def Op.storesPid : Op → Bool
  | .create _ (.pidStore _) => true
  | _ => false

/-- `pid_lock` is used by `allocate_pid` only. -/
def PidLockPrivate (_ : Kernel) (e : Event) : Prop :=
  e ≠ .call (.semaDown .pidLock) ∧ e ≠ .call (.semaUp .pidLock) ∧
    e ≠ .call (.lockAcquire .pidLock) ∧ e ≠ .call (.lockRelease .pidLock)

instance (k : Kernel) (e : Event) : Decidable (PidLockPrivate k e) :=
  inferInstanceAs (Decidable (_ ∧ _ ∧ _ ∧ _))

/-- No thread increments `next_pid` while another one has yet to read it. -/
def PidReadInTime (k : Kernel) (e : Event) : Prop :=
  e = .step → k.here = { Ctx.idle with op := k.here.op } → k.here.op.storesPid = true →
    ∀ t ∈ k.pcbs, t ≠ k.cur → (k.ctx t).op.counted = false

instance (k : Kernel) (e : Event) : Decidable (PidReadInTime k e) :=
  inferInstanceAs (Decidable (_ → _ → _ → _))

def PidGuard (k : Kernel) (e : Event) : Prop := PidLockPrivate k e ∧ PidReadInTime k e

instance (k : Kernel) (e : Event) : Decidable (PidGuard k e) := inferInstanceAs (Decidable (_ ∧ _))

/-! ## The numbers given out -/

/-- The results of the first `m` calls, last first. -/
def pidsUpTo : Nat → List Nat
  | 0 => []
  | m + 1 => (m + 1) % 2 ^ 16 :: pidsUpTo m

theorem mem_pidsUpTo {x : Nat} : ∀ m, x ∈ pidsUpTo m → ∃ i, 1 ≤ i ∧ i ≤ m ∧ x = i % 2 ^ 16 := by
  intro m
  induction m with
  | zero => simp [pidsUpTo]
  | succ m ih =>
    intro h
    rcases List.mem_cons.mp h with rfl | h
    · exact ⟨m + 1, by omega, by omega, rfl⟩
    · obtain ⟨i, h1, h2, rfl⟩ := ih h
      exact ⟨i, h1, by omega, rfl⟩

theorem nodup_pidsUpTo : ∀ m, m < 2 ^ 16 → (pidsUpTo m).Nodup := by
  intro m
  induction m with
  | zero => simp [pidsUpTo]
  | succ m ih =>
    intro hm
    refine List.nodup_cons.mpr ⟨?_, ih (by omega)⟩
    intro hmem
    obtain ⟨i, h1, h2, he⟩ := mem_pidsUpTo m hmem
    rw [Nat.mod_eq_of_lt hm, Nat.mod_eq_of_lt (by omega)] at he
    omega

/-! ## The invariant -/

/-- How one thread uses `pid_lock`: it acquires it on the way to the increment only, and holds it once,
at the statements of `allocate_pid`. -/
def PidUseAt (c : Ctx) (held : Nat) : Prop :=
  (c.inAcquire .pidLock = true → ∃ n, c.op = .create n .pidLoad) ∧
    (held = 0 ∨ held = 1 ∧ c.op.holds = some .pidLock ∧ c.lockPc .pidLock = none)

structure PidInv (k : Kernel) : Prop where
  use : ∀ t, PidUseAt (k.ctx t) (k.hist.held t .pidLock)
  stored : ∀ t n p, (k.ctx t).op = .create n (.pidStore p) → p = k.nextPid
  given : k.hist.pids = pidsUpTo k.hist.pids.length
  /-- At most one thread is counted, and `next_pid` counts it. -/
  next : (∀ t, (k.ctx t).op.counted = false) ∧ k.nextPid = k.hist.pids.length % 2 ^ 16 ∨
    (∃ t, (k.ctx t).op.counted = true ∧ ∀ u, (k.ctx u).op.counted = true → u = t) ∧
      k.nextPid = (k.hist.pids.length + 1) % 2 ^ 16

/-- A thread in `lock_acquire` or `lock_release` of `pid_lock` does not hold it. -/
theorem PidUseAt.held_eq_zero {c : Ctx} {held : Nat} (h : PidUseAt c held)
    (hpc : c.lockPc .pidLock ≠ none) : held = 0 := by
  rcases h.2 with h0 | ⟨-, -, hn⟩
  · exact h0
  · exact absurd hn hpc

theorem Ctx.lockPc_of_inAcquire {c : Ctx} {l : LockId} (h : c.inAcquire l = true) : c.lockPc l ≠ none := by
  intro hn
  simp [Ctx.inAcquire, hn] at h

/-- A thread in no call of the lock functions goes on at another statement. -/
theorem PidUseAt.setOp {c : Ctx} {held : Nat} {op' : Op} (h : PidUseAt c held) (hlock : c.lock = none)
    (hop : c.op.holds = some .pidLock → op'.holds = some .pidLock) : PidUseAt { c with op := op' } held := by
  have hpc : c.lockPc .pidLock = none := Ctx.lockPc_of_none hlock _
  refine ⟨?_, ?_⟩
  · intro hacq
    exact absurd hpc (Ctx.lockPc_of_inAcquire (c := { c with op := op' }) hacq)
  · rcases h.2 with h0 | ⟨h1, hh, -⟩
    · exact .inl h0
    · exact .inr ⟨h1, hop hh, hpc⟩

/-- Runs in which only `allocate_pid` uses `pid_lock` use it as a lock. -/
theorem PidInv.lockUse {k : Kernel} {e : Event} (h : PidInv k) (hg : PidLockPrivate k e) :
    LockUse .pidLock k e := by
  refine ⟨hg.1, hg.2.1, fun he => absurd he hg.2.2.2, ?_⟩
  intro ha
  have h0 : k.hist.held k.cur .pidLock = 0 := (h.use k.cur).held_eq_zero (Ctx.lockPc_of_inAcquire ha)
  omega

namespace PidInv

variable {k k' : Kernel}

/-- A step of the running thread that neither increments `next_pid` nor returns it. -/
theorem own (h : PidInv k) (hnext : k'.nextPid = k.nextPid) (hpids : k'.hist.pids = k.hist.pids)
    (hctx : ∀ t, t ≠ k.cur → k'.ctx t = k.ctx t)
    (hheld : ∀ t, t ≠ k.cur → k'.hist.held t .pidLock = k.hist.held t .pidLock)
    (huse : PidUseAt (k'.ctx k.cur) (k'.hist.held k.cur .pidLock))
    (hst : ∀ n p, (k'.ctx k.cur).op = .create n (.pidStore p) → p = k.nextPid)
    (hc : (k'.ctx k.cur).op.counted = (k.ctx k.cur).op.counted) : PidInv k' := by
  have hcount : ∀ t, (k'.ctx t).op.counted = (k.ctx t).op.counted := by
    intro t
    by_cases ht : t = k.cur
    · rw [ht, hc]
    · rw [hctx t ht]
  refine ⟨?_, ?_, ?_, ?_⟩
  · intro t
    by_cases ht : t = k.cur
    · rw [ht]
      exact huse
    · rw [hctx t ht, hheld t ht]
      exact h.use t
  · intro t n p hop
    rw [hnext]
    by_cases ht : t = k.cur
    · rw [ht] at hop
      exact hst n p hop
    · rw [hctx t ht] at hop
      exact h.stored t n p hop
  · rw [hpids]
    exact h.given
  · simp only [hcount, hnext, hpids]
    exact h.next

/-- The call stack changes above the function of thread.c, and not in `lock_acquire(&pid_lock)`. -/
theorem same {c : Ctx} (h : PidInv k) (hnext : k'.nextPid = k.nextPid) (hpids : k'.hist.pids = k.hist.pids)
    (hctx : k'.ctx = Function.update k.ctx k.cur c)
    (hheld : ∀ t, k'.hist.held t .pidLock = k.hist.held t .pidLock) (hop : c.op = k.here.op)
    (hpc : c.lockPc .pidLock = k.here.lockPc .pidLock) : PidInv k' := by
  have hcc : k'.ctx k.cur = c := by rw [hctx, Function.update_self]
  refine h.own hnext hpids ?_ (fun t _ => hheld t) ?_ ?_ ?_
  · intro t ht
    rw [hctx, Function.update_of_ne ht]
  · rw [hcc, hheld]
    have hu := h.use k.cur
    unfold PidUseAt Ctx.inAcquire at hu ⊢
    rw [hpc, hop]
    exact hu
  · intro n p he
    rw [hcc, hop] at he
    exact h.stored k.cur n p he
  · rw [hcc, hop]
    rfl

theorem frame (h : PidInv k) (hnext : k'.nextPid = k.nextPid) (hpids : k'.hist.pids = k.hist.pids)
    (hctx : k'.ctx = k.ctx) (hheld : k'.hist.held = k.hist.held) : PidInv k' := by
  refine h.same (c := k.here) hnext hpids ?_ (fun t => by rw [hheld]) rfl rfl
  rw [hctx]
  exact (Function.update_eq_self _ _).symm

theorem setOp {op : Op} (op' : Op) (h : PidInv k) (ha : k.At op) (hnext : k'.nextPid = k.nextPid)
    (hpids : k'.hist.pids = k.hist.pids) (hctx : k'.ctx = (k.setOp op').ctx)
    (hheld : k'.hist.held = k.hist.held) (hop : op.holds = some .pidLock → op'.holds = some .pidLock)
    (hst : ∀ n p, op' = .create n (.pidStore p) → p = k.nextPid) (hc : op'.counted = op.counted) :
    PidInv k' := by
  have ho : (k.ctx k.cur).op = op := congrArg Ctx.op ha
  have hcc : k'.ctx k.cur = { k.here with op := op' } := by
    rw [hctx]
    exact Function.update_self _ _ _
  refine h.own hnext hpids ?_ (fun _ _ => by rw [hheld]) ?_ ?_ ?_
  · intro t ht
    rw [hctx]
    exact Function.update_of_ne ht _ _
  · rw [hcc, hheld]
    exact (h.use k.cur).setOp (congrArg Ctx.lock ha) (by rw [ho]; exact hop)
  · intro n p he
    rw [hcc] at he
    exact hst n p he
  · rw [hcc, ho]
    exact hc

theorem callAcquire {op op' : Op} {l : LockId} (h : PidInv k) (ha : k.At op) (hn : op.holds = none)
    (hl : l = .pidLock → ∃ n, op' = .create n .pidLoad)
    (hst : ∀ n p, op' ≠ .create n (.pidStore p)) (hc : op'.counted = op.counted) :
    PidInv (Kernel.callAcquire k l op') := by
  have ho : (k.ctx k.cur).op = op := congrArg Ctx.op ha
  have hcc : (Kernel.callAcquire k l op').ctx k.cur = { k.here with lock := some (l, .acquireTest), op := op' } :=
    Function.update_self _ _ _
  refine h.own rfl rfl (fun t ht => Function.update_of_ne ht _ _) (fun _ _ => rfl) ?_ ?_ ?_
  · rw [hcc]
    refine ⟨?_, .inl ?_⟩
    · intro hacq
      refine hl ?_
      by_contra hne
      exact Ctx.lockPc_of_inAcquire hacq (Ctx.lockPc_of_ne rfl hne)
    · rcases (h.use k.cur).2 with h0 | ⟨-, hh, -⟩
      · exact h0
      · rw [ho, hn] at hh
        cases hh
  · intro n p he
    rw [hcc] at he
    exact absurd he (hst n p)
  · rw [hcc, ho]
    exact hc

theorem callRelease {op op' : Op} {l : LockId} (h : PidInv k) (ha : k.At op)
    (hl : op.holds = some .pidLock → l = .pidLock) (hst : ∀ n p, op' ≠ .create n (.pidStore p))
    (hc : op'.counted = op.counted) : PidInv (Kernel.callRelease k l op') := by
  have ho : (k.ctx k.cur).op = op := congrArg Ctx.op ha
  have hcc : (Kernel.callRelease k l op').ctx k.cur =
      { k.here with lock := some (l, .releaseAssert), op := op' } := Function.update_self _ _ _
  refine h.own rfl rfl (fun t ht => Function.update_of_ne ht _ _) ?_ ?_ ?_ ?_
  · intro t ht
    show (k.hist.setHeld k.cur l _).held t .pidLock = _
    simp [History.setHeld, ht]
  · rw [hcc]
    refine ⟨?_, .inl ?_⟩
    · intro hacq
      simp only [Ctx.inAcquire, Ctx.lockPc] at hacq
      by_cases he : l = .pidLock <;> simp [he, LockPc.isAcquire] at hacq
    · show (k.hist.setHeld k.cur l _).held k.cur .pidLock = 0
      rcases (h.use k.cur).2 with h0 | ⟨h1, hh, -⟩
      · by_cases he : l = .pidLock
        · subst he
          simp [History.setHeld, h0]
        · simp [History.setHeld, Ne.symm he, h0]
      · rw [ho] at hh
        obtain rfl := hl hh
        simp [History.setHeld, h1]
  · intro n p he
    rw [hcc] at he
    exact absurd he (hst n p)
  · rw [hcc, ho]
    exact hc

theorem semaDownLoop {l : LockId} {old : Bool} (h : PidInv k) (hd : Kernel.semaDownLoop k l old = .ok k')
    (hlock : k.here.lock = none ∨ k.here.lock = some (l, .acquireDown)) : PidInv k' := by
  have hheld : ∀ t, k'.hist.held t .pidLock = k.hist.held t .pidLock := by
    rw [Kernel.semaDownLoop_held hd]
    exact fun _ => rfl
  have hrest : k'.nextPid = k.nextPid ∧ k'.hist.pids = k.hist.pids := by
    rcases Kernel.semaDownLoop_ok hd with ⟨-, -, hs⟩ | ⟨-, rfl⟩
    · rw [Kernel.schedule_frame hs]
      exact ⟨rfl, rfl⟩
    · exact ⟨rfl, rfl⟩
  rcases Kernel.semaDownLoop_ctx hd with ⟨-, hx⟩ | ⟨-, hx⟩
  · exact h.same hrest.1 hrest.2 hx hheld rfl rfl
  · by_cases hp : k.here.lock = some (.pidLock, .acquireDown)
    · -- a thread on its way to the increment got the value
      have hcc : k'.ctx k.cur = { k.here with sema := none, lock := some (.pidLock, .setHolder) } := by
        rw [hx, Function.update_self]
        simp [Ctx.semaReturn, hp]
      have hu : PidUseAt k.here (k.hist.held k.cur .pidLock) := h.use k.cur
      have hpc := Ctx.lockPc_of_some hp
      refine h.own hrest.1 hrest.2 ?_ (fun t _ => hheld t) ?_ ?_ ?_
      · intro t ht
        rw [hx, Function.update_of_ne ht]
      · rw [hcc, hheld]
        exact ⟨fun _ => hu.1 (by simp [Ctx.inAcquire, hpc, LockPc.isAcquire]),
          .inl (hu.held_eq_zero (by simp [hpc]))⟩
      · intro n p he
        rw [hcc] at he
        exact h.stored k.cur n p he
      · rw [hcc]
        rfl
    · refine h.same hrest.1 hrest.2 hx hheld rfl ?_
      rcases hlock with hlock | hlock
      · simp [Ctx.semaReturn, Ctx.lockPc, hlock]
      · have hl : l ≠ .pidLock := by
          rintro rfl
          exact hp hlock
        rw [Ctx.lockPc_of_ne hlock hl]
        exact Ctx.lockPc_of_ne (by simp [Ctx.semaReturn, hlock]; rfl) hl

end PidInv

/-- A statement after which a thread is in `lock_acquire` is one of `lock_acquire`. -/
theorem Kernel.isAcquire_of_lockCode {cur : Tid} {plock plock' : Lock} {pc pc' : LockPc}
    (h : Kernel.lockCode cur plock pc = .ok (plock', some pc')) (ha : pc'.isAcquire = true) :
    pc.isAcquire = true := by
  cases pc with
  | releaseAssert | assertOne =>
    simp only [Kernel.lockCode, bind_eq_ok] at h
    obtain ⟨-, -, h⟩ := h
    cases h
    cases ha
  | releaseTest =>
    simp only [Kernel.lockCode] at h
    split at h <;> (cases h; cases ha)
  | decLoad | clearHolder | clearRepeat =>
    cases h
    cases ha
  | decStore | releaseUp => cases h
  | _ => rfl

theorem Op.releases_counted {op op' : Op} {l : LockId} (h : op.releases = some (l, op')) :
    op'.counted = op.counted ∧ ∀ n p, op' ≠ .create n (.pidStore p) := by
  cases op with
  | idle => cases h
  | ioqGetchar q pc =>
    cases pc <;> cases h
    exact ⟨rfl, by simp⟩
  | ioqPutchar q byte pc =>
    cases pc <;> cases h
    exact ⟨rfl, by simp⟩
  | create n pc =>
    cases pc <;> cases h
    exact ⟨rfl, by simp⟩
  | console rest pc =>
    cases pc <;> cases h
    exact ⟨rfl, by simp⟩

namespace PidInv

variable {k k' : Kernel}

theorem lockNext {l : LockId} {pc : LockPc} {plock : Lock} {next : Option LockPc} (h : PidInv k)
    (hlock : k.here.lock = some (l, pc)) (hc : Kernel.lockCode k.cur (k.lock l) pc = .ok (plock, next)) :
    PidInv (k.lockNext l pc plock next) := by
  have hpids : (Kernel.countHeld k l pc next).pids = k.hist.pids := by
    unfold Kernel.countHeld
    split <;> rfl
  by_cases hl : l = .pidLock
  · subst hl
    have hpc := Ctx.lockPc_of_some hlock
    have hu : PidUseAt k.here (k.hist.held k.cur .pidLock) := h.use k.cur
    have h0 : k.hist.held k.cur .pidLock = 0 := hu.held_eq_zero (by simp [hpc])
    have hcc : (k.lockNext .pidLock pc plock next).ctx k.cur =
        { k.here with lock := next.map fun pc => (.pidLock, pc) } := Function.update_self _ _ _
    refine h.own rfl hpids (fun t ht => Function.update_of_ne ht _ _) ?_ ?_ ?_ ?_
    · intro t ht
      show (Kernel.countHeld k .pidLock pc next).held t .pidLock = _
      unfold Kernel.countHeld
      split
      · simp [History.setHeld, ht]
      · rfl
    · rw [hcc]
      show PidUseAt _ ((Kernel.countHeld k .pidLock pc next).held k.cur .pidLock)
      unfold Kernel.countHeld
      by_cases hret : pc.isAcquire = true ∧ next = none
      · -- lock_acquire returns to the increment
        obtain ⟨hacq, rfl⟩ := hret
        obtain ⟨n, hop⟩ := hu.1 (by simp [Ctx.inAcquire, hpc, hacq])
        rw [if_pos ⟨hacq, rfl⟩]
        refine ⟨?_, .inr ⟨by simp [History.setHeld, h0], ?_, rfl⟩⟩
        · intro ha
          exact absurd rfl (Ctx.lockPc_of_inAcquire ha)
        · show k.here.op.holds = _
          rw [hop]
          rfl
      · rw [if_neg hret]
        refine ⟨?_, .inl h0⟩
        intro ha
        cases next with
        | none => exact absurd rfl (Ctx.lockPc_of_inAcquire ha)
        | some pc' =>
          have ha' : pc'.isAcquire = true := by simpa [Ctx.inAcquire, Ctx.lockPc] using ha
          exact hu.1 (by simp [Ctx.inAcquire, hpc, Kernel.isAcquire_of_lockCode hc ha'])
    · intro n p he
      rw [hcc] at he
      exact h.stored k.cur n p he
    · rw [hcc]
      rfl
  · refine h.same (c := { k.here with lock := next.map fun pc => (l, pc) }) rfl hpids rfl ?_ rfl ?_
    · intro t
      show (Kernel.countHeld k l pc next).held t .pidLock = _
      unfold Kernel.countHeld
      split
      · by_cases ht : t = k.cur
        · simp [History.setHeld, ht, Ne.symm hl]
        · simp [History.setHeld, ht]
      · rfl
    · rw [Ctx.lockPc_of_ne hlock hl]
      cases next with
      | none => rfl
      | some pc' => exact Ctx.lockPc_of_ne rfl hl

/-- The increment.  The lock makes the number that was loaded the current one. -/
theorem pidStore {n : NewTask} {p : Nat} (h : PidInv k) (ha : k.At (.create n (.pidStore p)))
    (hu : LockUses k .pidLock) (hv : (k.view .pidLock).Inv)
    (hnobody : ∀ t, t ≠ k.cur → (k.ctx t).op.counted = false) :
    PidInv { (k.setOp (.create n .pidRelease)) with nextPid := (p + 1) % 2 ^ 16 } := by
  have ho : (k.ctx k.cur).op = .create n (.pidStore p) := congrArg Ctx.op ha
  obtain rfl : p = k.nextPid := h.stored k.cur n p ho
  -- whoever is at the store holds the lock
  have hholds : ∀ t n' p', (k.ctx t).op = .create n' (.pidStore p') → 0 < (k.view .pidLock).held t := by
    intro t n' p' hop
    rcases hu.needs t (by rw [hop]; rfl) with hp | hacq
    · exact hp
    · obtain ⟨n'', hload⟩ := (h.use t).1 hacq
      rw [hop] at hload
      cases hload
  have hcc : ∀ op, (k.setOp op).ctx k.cur = { k.here with op := op } := fun op => Function.update_self _ _ _
  have hother : ∀ op t, t ≠ k.cur → (k.setOp op).ctx t = k.ctx t :=
    fun op t ht => Function.update_of_ne ht _ _
  refine ⟨?_, ?_, h.given, .inr ⟨⟨k.cur, ?_, ?_⟩, ?_⟩⟩
  · intro t
    show PidUseAt ((k.setOp (.create n .pidRelease)).ctx t) (k.hist.held t .pidLock)
    by_cases ht : t = k.cur
    · rw [ht, hcc]
      exact (h.use k.cur).setOp (congrArg Ctx.lock ha) (fun _ => rfl)
    · rw [hother _ t ht]
      exact h.use t
  · intro t n' p' hop
    replace hop : ((k.setOp (.create n .pidRelease)).ctx t).op = .create n' (.pidStore p') := hop
    by_cases ht : t = k.cur
    · rw [ht, hcc] at hop
      cases hop
    · rw [hother _ t ht] at hop
      exact absurd (hv.holder_unique (hholds t n' p' hop) (hholds k.cur n _ ho)) ht
  · show ((k.setOp (.create n .pidRelease)).ctx k.cur).op.counted = true
    rw [hcc]
    rfl
  · intro u hcount
    by_contra hne
    replace hcount : ((k.setOp (.create n .pidRelease)).ctx u).op.counted = true := hcount
    rw [hother _ u hne, hnobody u hne] at hcount
    cases hcount
  · show (k.nextPid + 1) % 2 ^ 16 = (k.hist.pids.length + 1) % 2 ^ 16
    rcases h.next with ⟨-, he⟩ | ⟨⟨t, ht, -⟩, -⟩
    · rw [he]
      omega
    · by_cases htc : t = k.cur
      · rw [htc, ho] at ht
        cases ht
      · rw [hnobody t htc] at ht
        cases ht

/-- The read after the lock was released. -/
theorem pidReturn {n : NewTask} {op' : Op} (h : PidInv k) (ha : k.At (.create n .pidReturn))
    (hfresh : k.ctx n.pcb = Ctx.new) (hne : n.pcb ≠ k.cur) (hop' : op'.counted = false)
    (hst : ∀ n p, op' ≠ .create n (.pidStore p)) : PidInv (Kernel.initPcb (k.setOp op') n) := by
  have ho : (k.ctx k.cur).op = .create n .pidReturn := congrArg Ctx.op ha
  have hcount : (k.ctx k.cur).op.counted = true := by
    rw [ho]
    rfl
  have hctx : (Kernel.initPcb (k.setOp op') n).ctx = (k.setOp op').ctx := by
    refine Function.update_eq_self_iff.mpr ?_
    rw [← hfresh]
    exact (Function.update_of_ne hne _ _).symm
  have hcc : (k.setOp op').ctx k.cur = { k.here with op := op' } := Function.update_self _ _ _
  have hother : ∀ t, t ≠ k.cur → (k.setOp op').ctx t = k.ctx t := fun t ht => Function.update_of_ne ht _ _
  obtain ⟨⟨t, -, hu⟩, hnext⟩ : (∃ t, (k.ctx t).op.counted = true ∧ ∀ u, (k.ctx u).op.counted = true → u = t) ∧
      k.nextPid = (k.hist.pids.length + 1) % 2 ^ 16 := by
    rcases h.next with ⟨hno, -⟩ | hone
    · rw [hno k.cur] at hcount
      cases hcount
    · exact hone
  refine ⟨?_, ?_, ?_, .inl ⟨?_, ?_⟩⟩
  · intro t
    rw [hctx]
    show PidUseAt ((k.setOp op').ctx t) (k.hist.held t .pidLock)
    by_cases ht : t = k.cur
    · rw [ht, hcc]
      refine (h.use k.cur).setOp (congrArg Ctx.lock ha) ?_
      rw [ho]
      intro hh
      cases hh
    · rw [hother t ht]
      exact h.use t
  · intro t n' p hop
    rw [hctx] at hop
    by_cases ht : t = k.cur
    · rw [ht, hcc] at hop
      exact absurd hop (hst n' p)
    · rw [hother t ht] at hop
      exact h.stored t n' p hop
  · show k.nextPid :: k.hist.pids = pidsUpTo (k.hist.pids.length + 1)
    rw [hnext, pidsUpTo, ← h.given]
  · intro u
    rw [hctx]
    by_cases hc : u = k.cur
    · rw [hc, hcc]
      exact hop'
    · rw [hother u hc]
      by_contra hcu
      have hut := hu u (by simpa using hcu)
      exact hc (hut.trans (hu k.cur hcount).symm)
  · exact hnext

/-- The last step of `lock_release()` leaves the lock code and touches nothing that is counted. -/
theorem leaveLock (h : PidInv k) : PidInv (k.setHere { k.here with lock := none }) := by
  have hc : (k.setHere { k.here with lock := none }).ctx k.cur = { k.here with lock := none } :=
    Function.update_self _ _ _
  refine h.own rfl rfl (fun t ht => Function.update_of_ne ht _ _) (fun _ _ => rfl) ?_ ?_ ?_
  · rw [hc]
    refine ⟨fun hacq => absurd rfl (Ctx.lockPc_of_inAcquire hacq), ?_⟩
    rcases (h.use k.cur).2 with h0 | ⟨h1, hh, -⟩
    · exact .inl h0
    · exact .inr ⟨h1, hh, rfl⟩
  · intro n p he
    rw [hc] at he
    exact h.stored k.cur n p he
  · rw [hc]
    rfl

end PidInv

namespace Kernel

variable {k k' : Kernel}

theorem wakeupIfAny_pids {q : IoqId} {side : Side} (h : wakeupIfAny k q side = .ok k') :
    k'.nextPid = k.nextPid ∧ k'.hist.pids = k.hist.pids := by
  rcases wakeupIfAny_ok h with rfl | ⟨t, -, -, rfl⟩
  · exact ⟨rfl, rfl⟩
  · exact ⟨rfl, rfl⟩

theorem semaUp_pids {l : LockId} (h : semaUp k l = .ok k') :
    k'.nextPid = k.nextPid ∧ k'.hist.pids = k.hist.pids := by
  obtain ⟨-, k1, h1, rfl⟩ := semaUp_ok h
  rcases wakeFirst_ok h1 with ⟨-, rfl⟩ | ⟨t, rest, -, -, rfl⟩
  · exact ⟨rfl, rfl⟩
  · exact ⟨rfl, rfl⟩

theorem ioqWait_pids {q : IoqId} {side : Side} (h : ioqWait k q side = .ok k') :
    k'.nextPid = k.nextPid ∧ k'.hist.pids = k.hist.pids := by
  obtain ⟨-, hs⟩ := ioqWait_ok h
  rw [schedule_frame hs]
  exact ⟨rfl, rfl⟩

/-- Every step in which nobody increments `next_pid` while somebody is counted. -/
theorem trans_pid {e : Event} (h : PidInv k) (hq : Queues k) (hth : ThreadInv k) (hu : LockUses k .pidLock)
    (hv : (k.view .pidLock).Inv) (hg : PidGuard k e) (hs : Trans k e k') : PidInv k' := by
  cases hs with
  | tick => exact h.frame rfl rfl rfl rfl
  | preempt _ _ hs =>
    refine h.same (c := { k.here with resume := some .intrExit }) ?_ ?_ ?_ ?_ rfl rfl
    · rw [schedule_frame hs]
      rfl
    · rw [schedule_frame hs]
      rfl
    · rw [schedule_frame hs]
      rfl
    · rw [schedule_frame hs]
      exact fun _ => rfl
  | keyLost => exact h
  | key q byte k1 _ _ hp =>
    have hh := wakeupIfAny_held hp
    exact h.frame (wakeupIfAny_pids hp).1 (wakeupIfAny_pids hp).2 (wakeupIfAny_ctx hp).1 hh
  | intrEnable => exact h.frame rfl rfl rfl rfl
  | intrDisable => exact h.frame rfl rfl rfl rfl
  | callDown l _ ha hd =>
    have h1 : PidInv { k with intr := false } := h.frame rfl rfl rfl rfl
    exact h1.semaDownLoop hd (.inl (congrArg Ctx.lock ha))
  | callUp l _ _ hup => exact h.frame (semaUp_pids hup).1 (semaUp_pids hup).2 (semaUp_ctx hup).1 (semaUp_held hup)
  | callAcquire l ha =>
    refine h.callAcquire ha rfl ?_ (by simp) rfl
    rintro rfl
    exact absurd rfl hg.1.2.2.1
  | callRelease l ha => exact h.callRelease ha (by simp [Op.holds]) (by simp) rfl
  | callGetchar q ha _ => exact h.setOp _ ha rfl rfl rfl rfl (by simp [Op.holds]) (by simp) rfl
  | callPutchar q byte ha _ => exact h.setOp _ ha rfl rfl rfl rfl (by simp [Op.holds]) (by simp) rfl
  | callCreate n ha _ => exact h.setOp _ ha rfl rfl rfl rfl (by simp [Op.holds]) (by simp) rfl
  | callConsole str ha => exact h.setOp _ ha rfl rfl rfl rfl (by simp [Op.holds]) (by simp) rfl
  | resume r _ => exact h.same (c := { k.here with resume := none }) rfl rfl rfl (fun _ => rfl) rfl rfl
  | redown l old _ _ hsema hd =>
    refine h.semaDownLoop hd ?_
    rcases hu.sema k.cur l old hsema with hl | ⟨hl, -⟩
    · exact .inr hl
    · exact .inl hl
  | lockDown l _ _ _ hl hd =>
    have h1 : PidInv { k with intr := false } := h.frame rfl rfl rfl rfl
    exact h1.semaDownLoop hd (.inr hl)
  | lockUp l _ _ _ hl hup =>
    have h1 : PidInv (k.setHere { k.here with lock := none }) := h.leaveLock
    exact h1.frame (semaUp_pids hup).1 (semaUp_pids hup).2 (semaUp_ctx hup).1 (semaUp_held hup)
  | lockNext l pc plock next _ _ hl _ _ hc => exact h.lockNext hl hc
  | getAcquire q ha _ _ => exact h.callAcquire ha rfl (by simp) (by simp) rfl
  | putAcquire q byte ha _ _ => exact h.callAcquire ha rfl (by simp) (by simp) rfl
  | get q _ ha _ _ hb =>
    have hh := wakeupIfAny_held hb
    exact h.setOp .idle ha (wakeupIfAny_pids hb).1 (wakeupIfAny_pids hb).2 (wakeupIfAny_ctx hb).1 hh
      (by simp [Op.holds]) (by simp) rfl
  | put q byte _ ha _ _ hb =>
    have hh := wakeupIfAny_held hb
    exact h.setOp .idle ha (wakeupIfAny_pids hb).1 (wakeupIfAny_pids hb).2 (wakeupIfAny_ctx hb).1 hh
      (by simp [Op.holds]) (by simp) rfl
  | getWait q _ ha hw =>
    have h1 : PidInv (k.setOp (.ioqGetchar q .release)) :=
      h.setOp _ ha rfl rfl rfl rfl (by simp [Op.holds]) (by simp) rfl
    exact h1.same (ioqWait_pids hw).1 (ioqWait_pids hw).2 (ioqWait_ctx hw)
      (fun _ => by rw [ioqWait_held hw]; rfl) rfl rfl
  | putWait q byte _ ha hw =>
    have h1 : PidInv (k.setOp (.ioqPutchar q byte .release)) :=
      h.setOp _ ha rfl rfl rfl rfl (by simp [Op.holds]) (by simp) rfl
    exact h1.same (ioqWait_pids hw).1 (ioqWait_pids hw).2 (ioqWait_ctx hw)
      (fun _ => by rw [ioqWait_held hw]; rfl) rfl rfl
  | opRelease op op' l ha hrel =>
    refine h.callRelease ha ?_ (Op.releases_counted hrel).2 (Op.releases_counted hrel).1
    intro hh
    rw [(Op.holds_of_releases hrel).1] at hh
    exact Option.some.inj hh
  | pidAcquire n ha => exact h.callAcquire ha rfl (fun _ => ⟨n, rfl⟩) (by simp) rfl
  | pidLoad n ha =>
    refine h.setOp _ ha rfl rfl rfl rfl (fun _ => rfl) ?_ rfl
    intro n' p he
    cases he
    rfl
  | pidStore n p ha =>
    refine h.pidStore ha hu hv ?_
    intro t ht
    by_cases htt : t ∈ k.hist.threads
    · have hop : k.here.op = .create n (.pidStore p) := congrArg Ctx.op ha
      refine hg.2 rfl ?_ (by rw [hop]; rfl) t (hth.threads_pcbs t htt) ht
      rw [hop]
      exact ha
    · rw [hth.fresh t htt]
      rfl
  | pidReturn n ha =>
    obtain ⟨place, hplace⟩ := hq
    have hop : (k.ctx k.cur).op = .create n .pidReturn := congrArg Ctx.op ha
    have hnew : n.pcb ∉ k.hist.threads := (hth.creating k.cur n .pidReturn hop).2.2.1 rfl
    have hne : n.pcb ≠ k.cur := fun he => hnew (he ▸ cur_mem_threads hplace)
    exact h.pidReturn ha (hth.fresh n.pcb hnew) hne (by split <;> rfl) (by intro n' p; split <;> simp)
  | readyAssert n ha _ => exact h.setOp _ ha rfl rfl rfl rfl (by simp [Op.holds]) (by simp) rfl
  | readyAppend n ha => exact h.setOp _ ha rfl rfl rfl rfl (by simp [Op.holds]) (by simp) rfl
  | allAssert n ha _ => exact h.setOp _ ha rfl rfl rfl rfl (by simp [Op.holds]) (by simp) rfl
  | allAppend n ha => exact h.setOp _ ha rfl rfl rfl rfl (by simp [Op.holds]) (by simp) rfl
  | insert n ha _ _ => exact h.setOp _ ha rfl rfl rfl rfl (by simp [Op.holds]) (by simp) rfl
  | consoleAcquire rest ha => exact h.callAcquire ha rfl (by simp) (by simp) rfl
  | consolePut c rest ha => exact h.setOp _ ha rfl rfl rfl rfl (by simp [Op.holds]) (by simp) rfl
  | consoleDone ha => exact h.setOp _ ha rfl rfl rfl rfl (by simp [Op.holds]) (by simp) rfl

theorem boot_pid (mainThread : Tid) (value : LockId → Nat) : PidInv (boot mainThread value) := by
  have hctx : ∀ t, (boot mainThread value).ctx t = Ctx.idle ∨ (boot mainThread value).ctx t = Ctx.new := by
    intro t
    by_cases ht : t = mainThread
    · left
      simp [boot, ht]
    · right
      simp [boot, ht]
  have hop : ∀ t, ((boot mainThread value).ctx t).op = .idle := by
    intro t
    rcases hctx t with he | he <;> (rw [he]; rfl)
  refine ⟨?_, ?_, rfl, .inl ⟨?_, rfl⟩⟩
  · intro t
    refine ⟨?_, .inl rfl⟩
    rcases hctx t with he | he <;> (rw [he]; intro ha; cases ha)
  · intro t n p he
    rw [hop t] at he
    cases he
  · intro t
    rw [hop t]
    rfl

theorem run_pid {mainThread : Tid} {value : LockId → Nat} {es : List Event} (hv : value .pidLock = 1)
    (hr : Runs step PidGuard (boot mainThread value) es k) : PidInv k := by
  refine (Runs.invariant (fun k => Queues k ∧ ThreadInv k ∧ LockUses k .pidLock ∧ (k.view .pidLock).Inv ∧
    PidInv k) ?_ es _ k ⟨boot_queues mainThread value, boot_threads mainThread value,
      boot_uses mainThread value .pidLock, .inl (boot_view mainThread value .pidLock hv),
      boot_pid mainThread value⟩ hr).2.2.2.2
  rintro k1 e k2 ⟨hq, ht, hu, hi, hp⟩ hg hs
  have htr := step_trans hs
  have hlu := hp.lockUse hg.1
  refine ⟨step_queues hq ht htr, step_threads hq ht htr, trans_uses hu hlu htr, ?_,
    trans_pid hp hq ht hu hi hg htr⟩
  rcases trans_view hq ht hu hlu htr with he | hm
  · rw [he]
    exact hi
  · exact hi.move hm

end Kernel

/-- **Pids are distinct** in every run in which no thread increments `next_pid` while another one has yet to
read it. -/
theorem allocatePid_distinct (mainThread : Tid) (value : LockId → Nat) (hv : value .pidLock = 1)
    (es : List Event) (k : Kernel) (hr : Runs Kernel.step PidGuard (Kernel.boot mainThread value) es k)
    (hlen : k.hist.pids.length < 65536) : k.hist.pids.Nodup := by
  rw [(Kernel.run_pid hv hr).given]
  exact nodup_pidsUpTo _ hlen

/-- Thread 1 is created, and preempts the main thread before the increment of the second creation; its
own creation runs to the end first. -/
def interleavedCreations : List Event :=
  List.flatten [threadStartRun 1 1, [.call .intrEnable],
    [.call (.create { pcb := 2, name := [], prio := 1, process := false }), .step, .step],
    List.replicate 32 .timer, [.step],
    .call (.create { pcb := 3, name := [], prio := 1, process := true }) :: List.replicate 17 .step,
    List.replicate 2 .timer, List.replicate 18 .step]

theorem allocatePid_distinct_interleaved :
    ∃ k, Runs Kernel.step PidGuard (Kernel.boot 0 fun _ => 1) interleavedCreations k ∧
      k.hist.pids = [4, 3, 2, 1] ∧ k.hist.pids.Nodup := by
  obtain ⟨k, hr, hk⟩ := Runs.exists_of_exec Kernel.step (G := PidGuard)
    (fun k e => decide (PidGuard k e)) (fun _ _ h => of_decide_eq_true h) (Kernel.boot 0 fun _ => 1)
    interleavedCreations (fun k => k.hist.pids) (b := [4, 3, 2, 1]) (by decide +kernel)
  refine ⟨k, hr, hk, ?_⟩
  exact allocatePid_distinct 0 (fun _ => 1) rfl interleavedCreations k hr (by rw [hk]; decide)

/-- The main thread is preempted between its `lock_release` and the read of `next_pid`. -/
def lateRead : List Event :=
  List.flatten [threadStartRun 1 1, [.call .intrEnable],
    .call (.create { pcb := 2, name := [], prio := 1, process := false }) :: List.replicate 15 .step,
    List.replicate 32 .timer, [.step],
    .call (.create { pcb := 3, name := [], prio := 1, process := true }) :: List.replicate 17 .step,
    List.replicate 2 .timer, List.replicate 2 .step]

/-- Two of four calls return 4. -/
theorem allocatePid_repeats :
    ∃ es k, Runs Kernel.step PidLockPrivate (Kernel.boot 0 fun _ => 1) es k ∧
      k.hist.pids = [4, 4, 2, 1] ∧ ¬ k.hist.pids.Nodup := by
  obtain ⟨k, hr, hk⟩ := Runs.exists_of_exec Kernel.step (G := PidLockPrivate)
    (fun k e => decide (PidLockPrivate k e)) (fun _ _ h => of_decide_eq_true h) (Kernel.boot 0 fun _ => 1)
    lateRead (fun k => k.hist.pids) (b := [4, 4, 2, 1]) (by decide +kernel)
  exact ⟨lateRead, k, hr, hk, by rw [hk]; decide⟩

end MyOs
