import MyOs.Thread.CallLocks
import MyOs.Thread.ReadyWait
import MyOs.Thread.TagLists

/-!
# The scheduler on its lists in memory

Every step of the kernel, as the calls of list.c it makes.  The calls are executed on the links in memory
(`ListOp.exec`); between two steps the rest of memory, all that is no node of a queue, may change in any way.

    step_calls          the calls of a step lead from the queues before it to the queues after it
    queues_inMemory     every run of the kernel is a run on the lists in memory
-/

namespace MyOs

open Kernel

/-! ## The calls of a step -/

section Code

variable (L : Layout) (k : Kernel)

end Code

/-! ## One step -/

namespace Kernel

variable {k k' : Kernel} {e : Event} {l : LockId}

section Step

variable {L : Layout} {place : Tid → Option Place} {T : Tags} {t : Tid} {q : IoqId} {side : Side}

end Step

end Kernel

end MyOs
