import MyOs.Kernel.Interrupt
import MyOs.Kernel.IntrEntry
import MyOs.Theory.Writes

/-!
# kernel/interrupt.c: the gates

`idt_desc_init` reads `IDT_DESC_CNT` entries of `intr_entry_table`, and the macro of kernel.S makes one entry
for each of its `VECTOR` lines.  The rest of what it reads is the data that happens to follow.

    makeIdtDesc_offset    the two halves of the offset are the function
    idtDescInit_gate      what each gate holds
    gate_iff              which gates lead to the stub of their vector
-/

namespace MyOs

structure GateDesc where
  funcOffsetLowWord : BitVec 16
  selector : Selector
  dcount : BitVec 8
  attr : BitVec 8
  funcOffsetHigtWord : BitVec 16
  deriving DecidableEq

def IDT_DESC_P : BitVec 8 := 1
def IDT_DESC_DPL0 : BitVec 8 := 0
def IDT_DESC_DPL3 : BitVec 8 := 3
def IDT_DESC_32_TYPE : BitVec 8 := 0xE
def IDT_DESC_ATTR_DPL0 : BitVec 8 := (IDT_DESC_P <<< 7) + (IDT_DESC_DPL0 <<< 5) + IDT_DESC_32_TYPE
def IDT_DESC_ATTR_DPL3 : BitVec 8 := (IDT_DESC_P <<< 7) + (IDT_DESC_DPL3 <<< 5) + IDT_DESC_32_TYPE

/-- The vectors of the `VECTOR` lines, in their order. -/
def VECTORS : List Nat := List.range 0x30

/-- Where the linker put the code, and the words after the last `dd` of the table. -/
structure StubImage where
  intrEntry : Nat → Word32
  syscallHandler : Word32
  following : Nat → Word32

/-! ## Algorithm -/

def makeIdtDesc (attr : BitVec 8) (function : Word32) : GateDesc where
  funcOffsetLowWord := (function &&& 0x0000FFFF).setWidth 16
  selector := SELECTOR_K_CODE
  dcount := 0
  attr := attr
  funcOffsetHigtWord := ((function &&& 0xFFFF0000) >>> 16).setWidth 16

/-- `intr_entry_table[i]`, wherever that is. -/
def StubImage.intrEntryTable (img : StubImage) (i : Nat) : Word32 :=
  ((VECTORS.map img.intrEntry)[i]?).getD (img.following (i - VECTORS.length))

def idtDescInit (img : StubImage) (idt : Nat → GateDesc) : Nat → GateDesc :=
  let lastindex := IDT_DESC_CNT - 1
  let idt := (List.range IDT_DESC_CNT).foldl
    (fun idt i => Function.update idt i (makeIdtDesc IDT_DESC_ATTR_DPL0 (img.intrEntryTable i))) idt
  Function.update idt lastindex (makeIdtDesc IDT_DESC_ATTR_DPL3 img.syscallHandler)

/-! ## Gates -/

namespace GateDesc

def offset (g : GateDesc) : Word32 := (g.funcOffsetHigtWord.setWidth 32 <<< 16) ||| g.funcOffsetLowWord.setWidth 32

def present (g : GateDesc) : Bool := g.attr.getLsbD 7

def dpl (g : GateDesc) : BitVec 8 := g.attr >>> 5 &&& 3

end GateDesc

/-- The stubs kernel.S defines, with their vectors. -/
def StubImage.stubs (img : StubImage) : List (Nat × Word32) :=
  VECTORS.map (fun v => (v, img.intrEntry v)) ++ [(0x80, img.syscallHandler)]

/-- If gate `v` is present, it leads to the stub of `v`; that of the system calls is open to ring 3. -/
def GateReal (img : StubImage) (idt : Nat → GateDesc) (v : Nat) : Prop :=
  (idt v).present = true → (v, (idt v).offset) ∈ img.stubs ∧ (v = 0x80 → (idt v).dpl = 3)

theorem toNat_lowWord (w : Word32) : ((w &&& 0x0000FFFF).setWidth 16).toNat = w.toNat % 2 ^ 16 := by
  rw [BitVec.toNat_setWidth, BitVec.toNat_and]
  show (w.toNat &&& (2 ^ 16 - 1)) % 2 ^ 16 = _
  rw [Nat.and_two_pow_sub_one_eq_mod, Nat.mod_mod]

theorem makeIdtDesc_low (attr : BitVec 8) (function : Word32) :
    (makeIdtDesc attr function).funcOffsetLowWord.toNat = function.toNat % 2 ^ 16 := toNat_lowWord function

/-- A field of `n` bits at bit `k` of a word: mask, then shift. -/
theorem toNat_field (w : Word32) (n k : Nat) (h : (2 ^ n - 1) <<< k < 2 ^ 32) :
    ((w &&& BitVec.ofNat 32 ((2 ^ n - 1) <<< k)) >>> k).toNat = w.toNat / 2 ^ k % 2 ^ n := by
  rw [BitVec.toNat_ushiftRight, BitVec.toNat_and, BitVec.toNat_ofNat, Nat.mod_eq_of_lt h, Word.and_shiftRight_field]

theorem makeIdtDesc_high (attr : BitVec 8) (function : Word32) :
    (makeIdtDesc attr function).funcOffsetHigtWord.toNat = function.toNat / 2 ^ 16 := by
  have hlt := function.isLt
  have hfield : ((function &&& 0xFFFF0000) >>> 16).toNat = function.toNat / 2 ^ 16 % 2 ^ 16 :=
    toNat_field function 16 16 (by decide)
  show (((function &&& 0xFFFF0000) >>> 16).setWidth 16).toNat = _
  rw [BitVec.toNat_setWidth, hfield]
  omega

/-- The halves are the function again. -/
theorem makeIdtDesc_offset (attr : BitVec 8) (function : Word32) : (makeIdtDesc attr function).offset = function := by
  have hlt := function.isLt
  apply BitVec.eq_of_toNat_eq
  unfold GateDesc.offset
  rw [BitVec.toNat_or, BitVec.toNat_shiftLeft, BitVec.toNat_setWidth, BitVec.toNat_setWidth, makeIdtDesc_low,
    makeIdtDesc_high, Nat.shiftLeft_eq, Word.or_low_eq_add _ _ 16 (by omega) (by omega)]
  omega

theorem makeIdtDesc_present (function : Word32) : (makeIdtDesc IDT_DESC_ATTR_DPL0 function).present = true ∧
    (makeIdtDesc IDT_DESC_ATTR_DPL3 function).present = true := by
  show IDT_DESC_ATTR_DPL0.getLsbD 7 = true ∧ IDT_DESC_ATTR_DPL3.getLsbD 7 = true
  decide

theorem makeIdtDesc_dpl (function : Word32) : (makeIdtDesc IDT_DESC_ATTR_DPL0 function).dpl = 0 ∧
    (makeIdtDesc IDT_DESC_ATTR_DPL3 function).dpl = 3 := by
  show IDT_DESC_ATTR_DPL0 >>> 5 &&& 3 = 0 ∧ IDT_DESC_ATTR_DPL3 >>> 5 &&& 3 = 3
  decide

section
variable (img : StubImage) (idt : Nat → GateDesc) {v : Nat}

/-- What `idt_desc_init` puts in each gate. -/
theorem idtDescInit_gate (hv : v < IDT_DESC_CNT) : idtDescInit img idt v =
    if v = 0x80 then makeIdtDesc IDT_DESC_ATTR_DPL3 img.syscallHandler
    else makeIdtDesc IDT_DESC_ATTR_DPL0 (img.intrEntryTable v) := by
  unfold idtDescInit
  by_cases h80 : v = 0x80
  · rw [if_pos h80, h80]
    exact Function.update_self _ _ _
  · have hlast : v ≠ IDT_DESC_CNT - 1 := h80
    have hloop := Writes.apply_map (fun i => makeIdtDesc IDT_DESC_ATTR_DPL0 (img.intrEntryTable i))
      (List.range IDT_DESC_CNT) idt v
    unfold Writes.apply at hloop
    rw [List.foldl_map, if_pos (List.mem_range.mpr hv)] at hloop
    rw [if_neg h80, Function.update_of_ne hlast]
    exact hloop

theorem idtDescInit_present (hv : v < IDT_DESC_CNT) : (idtDescInit img idt v).present = true := by
  rw [idtDescInit_gate img idt hv]
  split
  · exact (makeIdtDesc_present _).2
  · exact (makeIdtDesc_present _).1

theorem intrEntryTable_stub (hv : v < 0x30) : img.intrEntryTable v = img.intrEntry v := by
  have hlen : v < (VECTORS.map img.intrEntry).length := by
    rw [List.length_map]
    exact hv
  unfold StubImage.intrEntryTable
  rw [List.getElem?_eq_getElem hlen, List.getElem_map, Option.getD_some]
  unfold VECTORS
  rw [List.getElem_range]

theorem mem_stubs (a : Word32) : (v, a) ∈ img.stubs ↔
    (v < 0x30 ∧ img.intrEntry v = a) ∨ (v = 0x80 ∧ img.syscallHandler = a) := by
  unfold StubImage.stubs VECTORS
  rw [List.mem_append, List.mem_map, List.mem_singleton, Prod.mk.injEq]
  constructor
  · rintro (⟨w, hw, he⟩ | ⟨h1, h2⟩)
    · cases he
      exact .inl ⟨List.mem_range.mp hw, rfl⟩
    · exact .inr ⟨h1, h2.symm⟩
  · rintro (⟨hv, rfl⟩ | ⟨h1, h2⟩)
    · exact .inl ⟨v, List.mem_range.mpr hv, rfl⟩
    · exact .inr ⟨h1, h2.symm⟩

/-- **The real gates.**  Vectors 0x30 to 0x7f have no stub, and their gates are made of what follows the table. -/
theorem gate_iff (hv : v < IDT_DESC_CNT) : GateReal img (idtDescInit img idt) v ↔ v < 0x30 ∨ v = 0x80 := by
  have hp := idtDescInit_present img idt hv
  constructor
  · intro h
    rcases (mem_stubs img _).mp (h hp).1 with ⟨hlt, -⟩ | ⟨h80, -⟩
    · exact .inl hlt
    · exact .inr h80
  · intro h hp'
    rw [mem_stubs, idtDescInit_gate img idt hv]
    by_cases h80 : v = 0x80
    · rw [if_pos h80, makeIdtDesc_offset]
      exact ⟨.inr ⟨h80, rfl⟩, fun _ => (makeIdtDesc_dpl _).2⟩
    · have hlt : v < 0x30 := h.resolve_right h80
      rw [if_neg h80, makeIdtDesc_offset, intrEntryTable_stub img hlt]
      exact ⟨.inl ⟨hlt, rfl⟩, fun h => absurd h h80⟩

end

/-- Stubs at 0xc0001000, 16 bytes each, with zeros after their table. -/
def sampleStubs : StubImage where
  intrEntry v := 0xc0001000 + 16 * .ofNat 32 v
  syscallHandler := 0xc0002000
  following _ := 0

theorem gate_timer : GateReal sampleStubs (idtDescInit sampleStubs fun _ => makeIdtDesc 0 0) 0x20 :=
  (gate_iff sampleStubs _ (by decide)).mpr (.inl (by decide))

/-- The gate of vector 0x30 is present and leads to address 0. -/
theorem gate_null : ¬ ∀ (img : StubImage) (idt : Nat → GateDesc) (v : Nat), v < IDT_DESC_CNT →
    GateReal img (idtDescInit img idt) v := by
  intro hall
  have hlt : 0x30 < IDT_DESC_CNT := by decide
  obtain ⟨hmem, -⟩ := hall sampleStubs (fun _ => makeIdtDesc 0 0) 0x30 hlt (idtDescInit_present _ _ hlt)
  rcases (mem_stubs sampleStubs _).mp hmem with ⟨h, -⟩ | ⟨h, -⟩
  · exact absurd h (by decide)
  · exact absurd h (by decide)

end MyOs
