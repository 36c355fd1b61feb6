import MyOs.Kernel.Debug

/-!
# thread/sync.h: semaphores and locks

The data of `struct semaphore` and `struct lock`, and `lock_acquire` / `lock_release` as a thread
runs them while no other thread is scheduled (`MyOs.Kernel.Allocator` is about calls made one at a
time).  The interleaved versions, with a program counter per thread, are in `MyOs.Thread.Machine`.
-/

namespace MyOs

/-- A thread, named by its PCB page. -/
abbrev Tid := Nat

structure Semaphore where
  value : Nat
  waiters : List Tid
  deriving DecidableEq, Repr

structure Lock where
  holder : Option Tid
  semaphore : Semaphore
  holderRepeatNr : Nat
  deriving DecidableEq, Repr

def semaInit (value : Nat) : Semaphore := { value := value, waiters := [] }

def lockInit : Lock := { holder := none, semaphore := semaInit 1, holderRepeatNr := 0 }

/-- `sema_down` of a thread that nobody else can wake: with value 0 it never returns. -/
def semaDown (b : Build) (psema : Semaphore) : Except Halt Semaphore := do
  if psema.value = 0 then .error .blocked
  else
    assert b "sema_down" "psema->value==0" (psema.value - 1 = 0)
    pure { psema with value := psema.value - 1 }

def semaUp (b : Build) (psema : Semaphore) : Except Halt Semaphore := do
  assert b "sema_up" "psema->value == 0" (psema.value = 0)
  assert b "sema_up" "psema->value==1" ((psema.value + 1) % 256 = 1)
  pure { value := (psema.value + 1) % 256, waiters := psema.waiters.tail }

def lockAcquire (b : Build) (cur : Tid) (plock : Lock) : Except Halt Lock := do
  if plock.holder ≠ some cur then
    let sema ← semaDown b plock.semaphore
    assert b "lock_acquire" "plock->holder_repeat_nr == 0" (plock.holderRepeatNr = 0)
    pure { holder := some cur, semaphore := sema, holderRepeatNr := 1 }
  else pure { plock with holderRepeatNr := (plock.holderRepeatNr + 1) % 2 ^ 32 }

def lockRelease (b : Build) (cur : Tid) (plock : Lock) : Except Halt Lock := do
  assert b "lock_release" "plock->holder == running_thread()" (plock.holder = some cur)
  if plock.holderRepeatNr > 1 then
    pure { plock with holderRepeatNr := plock.holderRepeatNr - 1 }
  else
    assert b "lock_release" "plock->holder_repeat_nr==1" (plock.holderRepeatNr = 1)
    let sema ← semaUp b plock.semaphore
    pure { holder := none, semaphore := sema, holderRepeatNr := 0 }

/-- Taking a free lock. -/
theorem lockAcquire_free (b : Build) (cur : Tid) :
    lockAcquire b cur lockInit = .ok { holder := some cur, semaphore := semaInit 0, holderRepeatNr := 1 } := by
  cases b <;> rfl

/-- Giving it back leaves it free again. -/
theorem lockRelease_held (b : Build) (cur : Tid) :
    lockRelease b cur { holder := some cur, semaphore := semaInit 0, holderRepeatNr := 1 } = .ok lockInit := by
  cases b <;> simp [lockRelease, semaUp, semaInit, lockInit, assert, bind, Except.bind]

end MyOs
