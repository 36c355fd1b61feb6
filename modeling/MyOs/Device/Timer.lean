import Mathlib.Logic.Basic
import Mathlib.Tactic.Common

/-!
# device/timer.c: programming the 8253

`frequency_set` puts out a control byte and two bytes for the counter.  The cast of the last one binds before
the shift, so the counter always gets a zero as its high byte.

    frequencySet_reload      the counter gets the low byte
    frequencySet_iff         it is programmed with the value it was given below 256 only
-/

namespace MyOs

def IRQ0_FREQUENCY : Nat := 1000
def INPUT_FREQUENCY : Nat := 1193180
def COUNTER0_VALUE : Nat := INPUT_FREQUENCY / IRQ0_FREQUENCY
def COUNTER0_PORT : UInt8 := 0x40
def COUNTER_MODE : UInt8 := 2
def COUNTER0_NO : UInt8 := 0
def READ_WRITE_LATCH : UInt8 := 3
def PIT_CONTROL_PORT : UInt8 := 0x43

/-! ## Algorithm -/

/-- The `outb` calls of `frequency_set`, each with its port; a byte is an `int` in an expression. -/
def frequencySet (counterPort counterNo rwl counterMode : UInt8) (counterValue : UInt16) : List (UInt8 × UInt8) :=
  [(PIT_CONTROL_PORT, UInt8.ofNat (counterNo.toNat <<< 6 ||| rwl.toNat <<< 4 ||| counterMode.toNat <<< 1)),
    (counterPort, counterValue.toUInt8),
    (counterPort, UInt8.ofNat (counterValue.toUInt8.toNat >>> 8))]

/-- `timer_init`; its handler is that of vector 0x20. -/
def timerInit : List (UInt8 × UInt8) :=
  frequencySet COUNTER0_PORT COUNTER0_NO READ_WRITE_LATCH COUNTER_MODE (UInt16.ofNat COUNTER0_VALUE)

/-! ## The 8253 -/

/-- The fields of a control byte: counter, access and mode. -/
def controlFields (b : UInt8) : UInt8 × UInt8 × UInt8 := (b >>> 6, b >>> 4 &&& 3, b >>> 1 &&& 7)

/-- A control byte with these fields, then `value` at the port of the counter, low byte first. -/
def Programs (counterPort counterNo rwl counterMode : UInt8) (value : Nat) (out : List (UInt8 × UInt8)) : Prop :=
  ∃ control lo hi, out = [(PIT_CONTROL_PORT, control), (counterPort, lo), (counterPort, hi)] ∧
    controlFields control = (counterNo, rwl, counterMode) ∧ 256 * hi.toNat + lo.toNat = value

theorem controlFields_pack : ∀ no < 4, ∀ rwl < 4, ∀ mode < 8,
    controlFields (UInt8.ofNat (no <<< 6 ||| rwl <<< 4 ||| mode <<< 1)) =
      (UInt8.ofNat no, UInt8.ofNat rwl, UInt8.ofNat mode) := by decide

section
variable (port no rwl mode : UInt8) (value : UInt16) (hno : no < 4) (hrwl : rwl < 4) (hmode : mode < 8)

include hno hrwl hmode

/-- What the counter gets. -/
theorem frequencySet_reload : Programs port no rwl mode (value.toNat % 256) (frequencySet port no rwl mode value) := by
  refine ⟨_, _, _, rfl, ?_, ?_⟩
  · have hpack := controlFields_pack no.toNat hno rwl.toNat hrwl mode.toNat hmode
    rw [UInt8.ofNat_toNat, UInt8.ofNat_toNat, UInt8.ofNat_toNat] at hpack
    exact hpack
  · have hlow : value.toUInt8.toNat = value.toNat % 256 := UInt16.toNat_toUInt8 value
    have hhigh : value.toUInt8.toNat >>> 8 = 0 := by
      rw [hlow, Nat.shiftRight_eq_div_pow]
      omega
    rw [hhigh, hlow]
    exact Nat.zero_add _

/-- **When the counter gets its value.** -/
theorem frequencySet_iff : Programs port no rwl mode value.toNat (frequencySet port no rwl mode value) ↔
    value < 256 := by
  obtain ⟨control, lo, hi, hout, hcontrol, hvalue⟩ := frequencySet_reload port no rwl mode value hno hrwl hmode
  have hlt : value < 256 ↔ value.toNat < 256 := UInt16.lt_iff_toNat_lt
  constructor
  · rintro ⟨control', lo', hi', hout', -, hvalue'⟩
    rw [hout] at hout'
    cases hout'
    rw [hlt]
    omega
  · intro h
    rw [hlt] at h
    exact ⟨control, lo, hi, hout, hcontrol, by omega⟩

end

theorem frequencySet_byte : Programs 0x40 0 3 2 255 (frequencySet 0x40 0 3 2 255) :=
  (frequencySet_iff 0x40 0 3 2 255 (by decide) (by decide) (by decide)).mpr (by decide)

example : timerInit = [(0x43, 0x34), (0x40, 0xa9), (0x40, 0)] := by decide

/-- `timer_init` asks for 1193 and gets 169: 7060 interrupts a second. -/
theorem timerInit_misses : ¬ ∀ (port no rwl mode : UInt8) (value : UInt16), no < 4 → rwl < 4 → mode < 8 →
    Programs port no rwl mode value.toNat (frequencySet port no rwl mode value) := by
  intro hall
  obtain ⟨control, lo, hi, hout, -, hvalue⟩ := hall COUNTER0_PORT COUNTER0_NO READ_WRITE_LATCH COUNTER_MODE
    (UInt16.ofNat COUNTER0_VALUE) (by decide) (by decide) (by decide)
  cases hout
  exact absurd hvalue (by decide)

end MyOs
