import MyOs.Thread.Sync

/-!
# One lock and the threads that use it

`LockView` is what the protocol of `lock_acquire` and `lock_release` is about: the lock, the statement each
thread is at, and how often each thread holds it.  `LockMove t` are the moves of a thread `t`.  The invariant
has an owner or none.  The owner is the thread between its `sema_down` and its `sema_up`; `OwnerAt` says
for every statement what `holder` and `holder_repeat_nr` are while the owner is there.  Everybody else
is outside, or before the `sema_down`.

    LockView.Inv.move   every move keeps the invariant
-/

namespace MyOs

@[ext]
structure LockView where
  holder : Option Tid
  repeatNr : Nat
  value : Nat
  lastDown : Option Tid
  owners : List Tid
  held : Tid → Nat
  pc : Tid → Option LockPc

/-- The lock as the owner `o` has it at a statement. -/
def OwnerAt (o : Tid) (holder : Option Tid) (repeatNr held : Nat) : Option LockPc → Prop
  | none => holder = some o ∧ repeatNr = held ∧ 0 < held
  | some .acquireTest => holder = some o ∧ repeatNr = held ∧ 0 < held
  | some .acquireDown => False
  | some .setHolder => holder = none ∧ repeatNr = 0 ∧ held = 0
  | some .assertFresh => holder = some o ∧ repeatNr = 0 ∧ held = 0
  | some .setRepeat => holder = some o ∧ repeatNr = 0 ∧ held = 0
  | some .incLoad => holder = some o ∧ repeatNr = held ∧ 0 < held
  | some (.incStore nr) => holder = some o ∧ repeatNr = held ∧ 0 < held ∧ nr = held
  | some .releaseAssert => holder = some o ∧ repeatNr = held + 1
  | some .releaseTest => holder = some o ∧ repeatNr = held + 1
  | some .decLoad => holder = some o ∧ repeatNr = held + 1 ∧ 0 < held
  | some (.decStore nr) => holder = some o ∧ repeatNr = held + 1 ∧ 0 < held ∧ nr = held + 1
  | some .assertOne => holder = some o ∧ repeatNr = held + 1 ∧ held = 0
  | some .clearHolder => holder = some o ∧ repeatNr = 1 ∧ held = 0
  | some .clearRepeat => holder = none ∧ repeatNr = 1 ∧ held = 0
  | some .releaseUp => holder = none ∧ repeatNr = 0 ∧ held = 0

/-- A thread that is not the owner. -/
def OutsideAt (held : Nat) (pc : Option LockPc) : Prop :=
  held = 0 ∧ (pc = none ∨ pc = some .acquireTest ∨ pc = some .acquireDown)

namespace LockView

/-- No owner: the lock is as `lock_init` left it. -/
structure Free (v : LockView) : Prop where
  value : v.value = 1
  owners : v.owners = []
  holder : v.holder = none
  repeatNr : v.repeatNr = 0
  outside : ∀ t, OutsideAt (v.held t) (v.pc t)

structure Owned (v : LockView) (o : Tid) : Prop where
  value : v.value = 0
  owners : v.owners = [o]
  lastDown : v.lastDown = some o
  owner : OwnerAt o v.holder v.repeatNr (v.held o) (v.pc o)
  outside : ∀ t, t ≠ o → OutsideAt (v.held t) (v.pc t)

def Inv (v : LockView) : Prop := v.Free ∨ ∃ o, v.Owned o

end LockView

/-- One more hold for a `lock_acquire` that returns. -/
def heldAfter (held : Nat) (pc : LockPc) (next : Option LockPc) : Nat :=
  if pc.isAcquire ∧ next = none then held + 1 else held

/-- The moves of thread `t`. -/
inductive LockMove (t : Tid) (v : LockView) : LockView → Prop
  | acquire : v.pc t = none → LockMove t v { v with pc := Function.update v.pc t (some .acquireTest) }
  | release : v.pc t = none → 0 < v.held t →
      LockMove t v { v with
        pc := Function.update v.pc t (some .releaseAssert)
        held := Function.update v.held t (v.held t - 1) }
  | code (pc : LockPc) (plock plock' : Lock) (next : Option LockPc) :
      v.pc t = some pc → pc ≠ .acquireDown → pc ≠ .releaseUp →
      plock.holder = v.holder → plock.holderRepeatNr = v.repeatNr →
      Kernel.lockCode t plock pc = .ok (plock', next) →
      (pc.isAcquire = true → v.held t + 1 < 2 ^ 32) →
      LockMove t v { v with
        holder := plock'.holder
        repeatNr := plock'.holderRepeatNr
        pc := Function.update v.pc t next
        held := Function.update v.held t (heldAfter (v.held t) pc next) }
  | down : v.pc t = some .acquireDown → v.value = 1 →
      LockMove t v { v with
        value := 0
        lastDown := some t
        owners := t :: v.owners
        pc := Function.update v.pc t (some .setHolder) }
  | up : v.pc t = some .releaseUp → v.value = 0 →
      LockMove t v { v with
        value := 1
        owners := v.owners.erase t
        pc := Function.update v.pc t none }

namespace LockView

variable {v : LockView} {t o : Tid}

/-- What the others are is not touched by a move of `t`. -/
theorem outside_update {held : Nat} {pc : Option LockPc} {s : Tid} (hs : s ≠ t)
    (h : OutsideAt (v.held s) (v.pc s)) :
    OutsideAt (Function.update v.held t held s) (Function.update v.pc t pc s) := by
  rw [Function.update_of_ne hs, Function.update_of_ne hs]
  exact h

/-- Statements the owner executes on the lock. -/
theorem owner_code {plock plock' : Lock} {held : Nat} {pc : LockPc} {next : Option LockPc}
    (h : OwnerAt o plock.holder plock.holderRepeatNr held (some pc)) (hup : pc ≠ .releaseUp)
    (hd : pc.isAcquire = true → held + 1 < 2 ^ 32)
    (hc : Kernel.lockCode o plock pc = .ok (plock', next)) :
    OwnerAt o plock'.holder plock'.holderRepeatNr (heldAfter held pc next) next := by
  cases pc with
  | acquireTest =>
    simp only [Kernel.lockCode] at hc
    rw [if_neg (by simp [h.1])] at hc
    cases hc
    exact h
  | acquireDown => exact h.elim
  | setHolder =>
    cases hc
    exact ⟨rfl, h.2⟩
  | assertFresh =>
    simp only [Kernel.lockCode, bind_eq_ok] at hc
    obtain ⟨-, -, hc⟩ := hc
    cases hc
    exact h
  | setRepeat =>
    cases hc
    simp [heldAfter, LockPc.isAcquire, OwnerAt, h.1, h.2.2]
  | incLoad =>
    cases hc
    exact ⟨h.1, h.2.1, h.2.2, h.2.1⟩
  | incStore nr =>
    cases hc
    obtain ⟨h1, h2, h3, rfl⟩ := h
    have hlt := hd rfl
    refine ⟨h1, ?_, ?_⟩
    · simp only [heldAfter, LockPc.isAcquire]
      rw [Nat.mod_eq_of_lt hlt]
      rfl
    · simp [heldAfter, LockPc.isAcquire]
  | releaseAssert =>
    simp only [Kernel.lockCode, bind_eq_ok] at hc
    obtain ⟨-, -, hc⟩ := hc
    cases hc
    exact h
  | releaseTest =>
    simp only [Kernel.lockCode] at hc
    split at hc
    · rename_i hgt
      cases hc
      refine ⟨h.1, h.2, ?_⟩
      have h2 := h.2
      simp only [heldAfter, LockPc.isAcquire]
      simp
      omega
    · rename_i hle
      cases hc
      refine ⟨h.1, h.2, ?_⟩
      have h2 := h.2
      simp only [heldAfter, LockPc.isAcquire]
      simp
      omega
  | decLoad =>
    cases hc
    exact ⟨h.1, h.2.1, h.2.2, h.2.1⟩
  | decStore nr =>
    cases hc
    obtain ⟨h1, h2, h3, rfl⟩ := h
    refine ⟨h1, ?_, ?_⟩
    · simp [heldAfter, LockPc.isAcquire]
    · simpa [heldAfter, LockPc.isAcquire] using h3
  | assertOne =>
    simp only [Kernel.lockCode, bind_eq_ok, assert_debug_ok] at hc
    obtain ⟨-, hone, hc⟩ := hc
    cases hc
    exact ⟨h.1, by simpa using hone, h.2.2⟩
  | clearHolder =>
    cases hc
    exact ⟨rfl, h.2⟩
  | clearRepeat =>
    cases hc
    exact ⟨h.1, rfl, h.2.2⟩
  | releaseUp => exact absurd rfl hup

/-- Statements a thread that is not the owner executes on the lock: only the first test. -/
theorem outside_code {plock plock' : Lock} {held : Nat} {pc : LockPc} {next : Option LockPc}
    (h : OutsideAt held (some pc)) (hne : plock.holder ≠ some t) (hdown : pc ≠ .acquireDown)
    (hc : Kernel.lockCode t plock pc = .ok (plock', next)) :
    plock' = plock ∧ OutsideAt (heldAfter held pc next) next := by
  obtain ⟨hheld, hpc⟩ := h
  have hpc' : pc = .acquireTest := by
    rcases hpc with hpc | hpc | hpc
    · cases hpc
    · exact Option.some.inj hpc
    · exact absurd (Option.some.inj hpc) hdown
  subst hpc'
  simp only [Kernel.lockCode] at hc
  rw [if_pos hne] at hc
  cases hc
  refine ⟨rfl, ?_, .inr (.inr rfl)⟩
  simpa [heldAfter] using hheld

/-- The holder is the owner. -/
theorem Owned.holder_ne (h : v.Owned o) {t : Tid} (ht : t ≠ o) : v.holder ≠ some t := by
  intro he
  have ho := h.owner
  rw [he] at ho
  cases hpc : v.pc o with
  | none =>
    rw [hpc] at ho
    exact ht (Option.some.inj ho.1)
  | some pc =>
    rw [hpc] at ho
    cases pc <;> first
      | exact ho.elim
      | exact ht (Option.some.inj ho.1)
      | cases ho.1

/-- A move of the owner. -/
theorem Owned.move_owner {v' : LockView} (h : v.Owned o) (hm : LockMove o v v') : v'.Inv := by
  have ho := h.owner
  cases hm with
  | acquire hpc =>
    rw [hpc] at ho
    refine .inr ⟨o, h.value, h.owners, h.lastDown, ?_, ?_⟩
    · dsimp only
      rw [Function.update_self]
      exact ho
    · intro s hs
      dsimp only
      rw [Function.update_of_ne hs]
      exact h.outside s hs
  | release hpc hheld =>
    rw [hpc] at ho
    refine .inr ⟨o, h.value, h.owners, h.lastDown, ?_, fun s hs => outside_update hs (h.outside s hs)⟩
    dsimp only
    rw [Function.update_self, Function.update_self]
    obtain ⟨h1, h2, h3⟩ := ho
    exact ⟨h1, by omega⟩
  | code pc plock plock' next hpc _ hup hh hr hc hd =>
    rw [hpc, ← hh, ← hr] at ho
    refine .inr ⟨o, h.value, h.owners, h.lastDown, ?_, fun s hs => outside_update hs (h.outside s hs)⟩
    dsimp only
    rw [Function.update_self, Function.update_self]
    exact owner_code ho hup hd hc
  | down hpc _ =>
    rw [hpc] at ho
    exact ho.elim
  | up hpc _ =>
    rw [hpc] at ho
    obtain ⟨h1, h2, h3⟩ := ho
    refine .inl ⟨rfl, ?_, h1, h2, ?_⟩
    · rw [h.owners]
      simp
    · intro s
      by_cases hs : s = o
      · dsimp only
        rw [hs, Function.update_self]
        exact ⟨h3, .inl rfl⟩
      · dsimp only
        rw [Function.update_of_ne hs]
        exact h.outside s hs

/-- A move of a thread that is not the owner, while there is one: it stays before its `sema_down`. -/
theorem Owned.move_other {v' : LockView} (h : v.Owned o) (ht : t ≠ o) (hm : LockMove t v v') : v'.Owned o := by
  have hout := h.outside t ht
  cases hm with
  | acquire hpc =>
    refine ⟨h.value, h.owners, h.lastDown, ?_, ?_⟩
    · dsimp only
      rw [Function.update_of_ne (Ne.symm ht)]
      exact h.owner
    · intro s hs
      by_cases hst : s = t
      · dsimp only
        rw [hst, Function.update_self]
        exact ⟨hout.1, .inr (.inl rfl)⟩
      · dsimp only
        rw [Function.update_of_ne hst]
        exact h.outside s hs
  | release hpc hheld =>
    have h0 := hout.1
    omega
  | code pc plock plock' next hpc hdown _ hh hr hc _ =>
    rw [hpc] at hout
    have hne : plock.holder ≠ some t := by
      rw [hh]
      exact h.holder_ne ht
    obtain ⟨rfl, hnext⟩ := outside_code hout hne hdown hc
    refine ⟨h.value, h.owners, h.lastDown, ?_, ?_⟩
    · dsimp only
      rw [Function.update_of_ne (Ne.symm ht), Function.update_of_ne (Ne.symm ht), hh, hr]
      exact h.owner
    · intro s hs
      by_cases hst : s = t
      · dsimp only
        rw [hst, Function.update_self, Function.update_self]
        exact hnext
      · exact outside_update hst (h.outside s hs)
  | down hpc hv =>
    have h0 := h.value
    omega
  | up hpc _ =>
    rw [hpc] at hout
    rcases hout.2 with he | he | he <;> cases he

/-- A move while there is no owner; the thread that gets past `sema_down` becomes the owner. -/
theorem Free.move {v' : LockView} (h : v.Free) (hm : LockMove t v v') : v'.Inv := by
  have hout := h.outside t
  cases hm with
  | acquire hpc =>
    refine .inl ⟨h.value, h.owners, h.holder, h.repeatNr, ?_⟩
    intro s
    by_cases hst : s = t
    · dsimp only
      rw [hst, Function.update_self]
      exact ⟨hout.1, .inr (.inl rfl)⟩
    · dsimp only
      rw [Function.update_of_ne hst]
      exact h.outside s
  | release hpc hheld =>
    have h0 := hout.1
    omega
  | code pc plock plock' next hpc hdown _ hh hr hc _ =>
    rw [hpc] at hout
    have hne : plock.holder ≠ some t := by
      rw [hh, h.holder]
      simp
    obtain ⟨rfl, hnext⟩ := outside_code hout hne hdown hc
    refine .inl ⟨h.value, h.owners, hh.trans h.holder, hr.trans h.repeatNr, ?_⟩
    intro s
    by_cases hst : s = t
    · dsimp only
      rw [hst, Function.update_self, Function.update_self]
      exact hnext
    · exact outside_update hst (h.outside s)
  | down hpc hv =>
    refine .inr ⟨t, rfl, ?_, rfl, ?_, ?_⟩
    · rw [h.owners]
    · dsimp only
      rw [Function.update_self]
      exact ⟨h.holder, h.repeatNr, hout.1⟩
    · intro s hs
      dsimp only
      rw [Function.update_of_ne hs]
      exact h.outside s
  | up hpc _ =>
    rw [hpc] at hout
    rcases hout.2 with he | he | he <;> cases he

theorem Inv.move {v' : LockView} (h : v.Inv) (hm : LockMove t v v') : v'.Inv := by
  rcases h with h | ⟨o, h⟩
  · exact h.move hm
  · by_cases ht : t = o
    · subst ht
      exact h.move_owner hm
    · exact .inr ⟨o, h.move_other ht hm⟩

/-- One thread at a time holds the lock. -/
theorem Inv.holder_unique (h : v.Inv) {t u : Tid} (ht : 0 < v.held t) (hu : 0 < v.held u) : t = u := by
  rcases h with h | ⟨o, h⟩
  · have h0 := (h.outside t).1
    omega
  · have honly : ∀ s, 0 < v.held s → s = o := by
      intro s hs
      by_contra hne
      have h0 := (h.outside s hne).1
      omega
    rw [honly t ht, honly u hu]

end LockView

end MyOs
