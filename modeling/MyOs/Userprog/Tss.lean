import MyOs.Kernel.Idt
import MyOs.Lib.CString

/-!
# userprog/tss.c and kernel/interrupt.c: descriptors

`make_gdt_desc` scatters a base of 32 bits and a limit of 20 bits over the members of `struct gdt_desc`; the
top nibble of the limit shares a byte with four attribute bits.  The processor reads the eight bytes as one
number and takes its fields out of that.

    descriptors_decode    what the processor reads is what the two functions were given
    tssInit_segments      the descriptors that `tss_init` leaves in the gdt

The selectors are those of global.h; `lgdt` loads 48 bits, the limit below the base.
-/

namespace MyOs

def SELECTOR_TSS : Selector := 0x20
def SELECTOR_U_CODE : Selector := 0x2b
def SELECTOR_U_DATA : Selector := 0x33

def GDT_ATTR_HIGH : BitVec 8 := (1 <<< 7) + (1 <<< 6) + (0 <<< 5) + (0 <<< 4)
def GDT_CODE_ATTR_LOW_DPL3 : BitVec 8 := (1 <<< 7) + (3 <<< 5) + (1 <<< 4) + 8
def GDT_DATA_ATTR_LOW_DPL3 : BitVec 8 := (1 <<< 7) + (3 <<< 5) + (1 <<< 4) + 2
def TSS_ATTR_HIGH : BitVec 8 := (1 <<< 7) + (0 <<< 6) + (0 <<< 5) + (0 <<< 4) + 0
def TSS_ATTR_LOW : BitVec 8 := (1 <<< 7) + (0 <<< 5) + (0 <<< 4) + 9

structure GdtDesc where
  limitLowWord : BitVec 16
  baseLowWord : BitVec 16
  baseMidByte : BitVec 8
  attrLowByte : BitVec 8
  limitHighAttrHigh : BitVec 8
  baseHighByte : BitVec 8
  deriving DecidableEq

/-! ## Algorithm -/

def makeGdtDesc (descAddr limit : Word32) (attrLow attrHigh : BitVec 8) : GdtDesc :=
  let descBase := descAddr
  { limitLowWord := (limit &&& 0x0000ffff).setWidth 16
    baseLowWord := (descBase &&& 0x0000ffff).setWidth 16
    baseMidByte := ((descBase &&& 0x00ff0000) >>> 16).setWidth 8
    attrLowByte := attrLow
    limitHighAttrHigh := (((limit &&& 0x000f0000) >>> 16) + attrHigh.setWidth 32).setWidth 8
    baseHighByte := (descBase >>> 24).setWidth 8 }

/-- The members in memory, with their sizes. -/
def GdtDesc.fields (d : GdtDesc) : List (Nat × Nat) :=
  [(2, d.limitLowWord.toNat), (2, d.baseLowWord.toNat), (1, d.baseMidByte.toNat), (1, d.attrLowByte.toNat),
    (1, d.limitHighAttrHigh.toNat), (1, d.baseHighByte.toNat)]

def GateDesc.fields (g : GateDesc) : List (Nat × Nat) :=
  [(2, g.funcOffsetLowWord.toNat), (2, g.selector.toNat), (1, g.dcount.toNat), (1, g.attr.toNat),
    (2, g.funcOffsetHigtWord.toNat)]

/-- `*(struct gdt_desc*)a = desc`. -/
def storeGdtDesc (m : Bytes) (a : Nat) (desc : GdtDesc) : Bytes := Bytes.writeFields desc.fields a m

def storeGateDesc (m : Bytes) (a : Nat) (desc : GateDesc) : Bytes := Bytes.writeFields desc.fields a m

/-- `sizeof(tss)`: 27 members of four bytes. -/
def TSS_SIZE : Word32 := 27 * 4

/-- `tss_init` up to its two instructions, with `tss` at address `tss`. -/
def tssInit (m : Bytes) (tss : Word32) : Option Bytes := do
  let tssSize := TSS_SIZE
  let m ← memset m tss.toNat 0 tssSize.toNat
  let m := m.write 4 (tss.toNat + 8) SELECTOR_K_STACK.toNat
  let m := m.write 4 (tss.toNat + 104) tssSize.toNat
  let m := storeGdtDesc m 0xc0000923 (makeGdtDesc tss (tssSize - 1) TSS_ATTR_LOW TSS_ATTR_HIGH)
  let m := storeGdtDesc m 0xc000092b (makeGdtDesc 0 0xfffff GDT_CODE_ATTR_LOW_DPL3 GDT_ATTR_HIGH)
  let m := storeGdtDesc m 0xc0000933 (makeGdtDesc 0 0xfffff GDT_DATA_ATTR_LOW_DPL3 GDT_ATTR_HIGH)
  some m

def gdtOperand : Nat := (8 * 7 - 1) ||| (0xc0000903 <<< 16)

/-! ## The layout of the processor -/

/-- A segment as the processor takes it from the eight bytes of a descriptor: the limit in bits 0 to 15 and
48 to 51, the base in bits 16 to 39 and 56 to 63, the attributes in bits 40 to 47 and 52 to 55. -/
structure Segment where
  base : Nat
  limit : Nat
  attrLow : Nat
  attrHigh : Nat
  deriving DecidableEq, Repr

def Segment.decode (q : Nat) : Segment where
  base := q / 2 ^ 16 % 2 ^ 24 + q / 2 ^ 56 % 2 ^ 8 * 2 ^ 24
  limit := q % 2 ^ 16 + q / 2 ^ 48 % 2 ^ 4 * 2 ^ 16
  attrLow := q / 2 ^ 40 % 2 ^ 8
  attrHigh := q / 2 ^ 52 % 2 ^ 4 * 2 ^ 4

/-- A gate: the offset in bits 0 to 15 and 48 to 63 around the selector, the count and the attributes. -/
structure Gate where
  offset : Nat
  selector : Nat
  count : Nat
  attr : Nat
  deriving DecidableEq, Repr

def Gate.decode (q : Nat) : Gate where
  offset := q % 2 ^ 16 + q / 2 ^ 48 % 2 ^ 16 * 2 ^ 16
  selector := q / 2 ^ 16 % 2 ^ 16
  count := q / 2 ^ 32 % 2 ^ 8
  attr := q / 2 ^ 40 % 2 ^ 8

/-- The segment that a selector names in the table `lgdt` was given. -/
def segmentOf (m : Bytes) (sel : Selector) : Segment :=
  Segment.decode (m.read 8 (gdtOperand / 2 ^ 16 + sel.toNat / 8 * 8))

/-! ## Lemmas -/

/-- The eight bytes of a descriptor as one number. -/
theorem packed_gdtDesc (d : GdtDesc) : Bytes.packed d.fields =
    d.limitLowWord.toNat + 2 ^ 16 * d.baseLowWord.toNat + 2 ^ 32 * d.baseMidByte.toNat +
      2 ^ 40 * d.attrLowByte.toNat + 2 ^ 48 * d.limitHighAttrHigh.toNat + 2 ^ 56 * d.baseHighByte.toNat := by
  have h1 : d.limitLowWord.toNat < 256 ^ 2 := d.limitLowWord.isLt
  have h2 : d.baseLowWord.toNat < 256 ^ 2 := d.baseLowWord.isLt
  have h3 : d.baseMidByte.toNat < 256 ^ 1 := d.baseMidByte.isLt
  have h4 : d.attrLowByte.toNat < 256 ^ 1 := d.attrLowByte.isLt
  have h5 : d.limitHighAttrHigh.toNat < 256 ^ 1 := d.limitHighAttrHigh.isLt
  have h6 : d.baseHighByte.toNat < 256 ^ 1 := d.baseHighByte.isLt
  unfold GdtDesc.fields
  simp only [Bytes.packed, Nat.mod_eq_of_lt h1, Nat.mod_eq_of_lt h2, Nat.mod_eq_of_lt h3, Nat.mod_eq_of_lt h4,
    Nat.mod_eq_of_lt h5, Nat.mod_eq_of_lt h6]
  omega

/-- Which bits of the members make which field. -/
theorem Segment.decode_gdtDesc (d : GdtDesc) : Segment.decode (Bytes.packed d.fields) =
    ⟨d.baseLowWord.toNat + 2 ^ 16 * d.baseMidByte.toNat + 2 ^ 24 * d.baseHighByte.toNat,
      d.limitLowWord.toNat + 2 ^ 16 * (d.limitHighAttrHigh.toNat % 2 ^ 4), d.attrLowByte.toNat,
      d.limitHighAttrHigh.toNat / 2 ^ 4 * 2 ^ 4⟩ := by
  have h1 := d.limitLowWord.isLt
  have h2 := d.baseLowWord.isLt
  have h3 := d.baseMidByte.isLt
  have h4 := d.attrLowByte.isLt
  have h5 := d.limitHighAttrHigh.isLt
  have h6 := d.baseHighByte.isLt
  rw [packed_gdtDesc]
  unfold Segment.decode
  rw [Segment.mk.injEq]
  refine ⟨?_, ?_, ?_, ?_⟩
  · omega
  · omega
  · omega
  · omega

theorem packed_gateDesc (g : GateDesc) : Bytes.packed g.fields =
    g.funcOffsetLowWord.toNat + 2 ^ 16 * g.selector.toNat + 2 ^ 32 * g.dcount.toNat + 2 ^ 40 * g.attr.toNat +
      2 ^ 48 * g.funcOffsetHigtWord.toNat := by
  have h1 : g.funcOffsetLowWord.toNat < 256 ^ 2 := g.funcOffsetLowWord.isLt
  have h2 : g.selector.toNat < 256 ^ 2 := g.selector.isLt
  have h3 : g.dcount.toNat < 256 ^ 1 := g.dcount.isLt
  have h4 : g.attr.toNat < 256 ^ 1 := g.attr.isLt
  have h5 : g.funcOffsetHigtWord.toNat < 256 ^ 2 := g.funcOffsetHigtWord.isLt
  unfold GateDesc.fields
  simp only [Bytes.packed, Nat.mod_eq_of_lt h1, Nat.mod_eq_of_lt h2, Nat.mod_eq_of_lt h3, Nat.mod_eq_of_lt h4,
    Nat.mod_eq_of_lt h5]
  omega

theorem Gate.decode_gateDesc (g : GateDesc) : Gate.decode (Bytes.packed g.fields) =
    ⟨g.funcOffsetLowWord.toNat + 2 ^ 16 * g.funcOffsetHigtWord.toNat, g.selector.toNat, g.dcount.toNat,
      g.attr.toNat⟩ := by
  have h1 := g.funcOffsetLowWord.isLt
  have h2 := g.selector.isLt
  have h3 := g.dcount.isLt
  have h4 := g.attr.isLt
  have h5 := g.funcOffsetHigtWord.isLt
  rw [packed_gateDesc]
  unfold Gate.decode
  rw [Gate.mk.injEq]
  refine ⟨?_, ?_, ?_, ?_⟩
  · omega
  · omega
  · omega
  · omega

section
variable (descAddr limit : Word32) (attrLow attrHigh : BitVec 8)

theorem makeGdtDesc_baseMid : (makeGdtDesc descAddr limit attrLow attrHigh).baseMidByte.toNat =
    descAddr.toNat / 2 ^ 16 % 2 ^ 8 := by
  have hfield : ((descAddr &&& 0x00ff0000) >>> 16).toNat = descAddr.toNat / 2 ^ 16 % 2 ^ 8 :=
    toNat_field descAddr 8 16 (by decide)
  show (((descAddr &&& 0x00ff0000) >>> 16).setWidth 8).toNat = _
  rw [BitVec.toNat_setWidth, hfield, Nat.mod_mod]

theorem makeGdtDesc_baseHigh : (makeGdtDesc descAddr limit attrLow attrHigh).baseHighByte.toNat =
    descAddr.toNat / 2 ^ 24 := by
  have hlt := descAddr.isLt
  show ((descAddr >>> 24).setWidth 8).toNat = _
  rw [BitVec.toNat_setWidth, BitVec.toNat_ushiftRight, Nat.shiftRight_eq_div_pow]
  omega

/-- The sum in the shared byte does not carry: the nibbles do not meet. -/
theorem makeGdtDesc_shared (ha : attrHigh.toNat % 2 ^ 4 = 0) :
    (makeGdtDesc descAddr limit attrLow attrHigh).limitHighAttrHigh.toNat =
      limit.toNat / 2 ^ 16 % 2 ^ 4 + attrHigh.toNat := by
  have hlt := attrHigh.isLt
  have hfield : ((limit &&& 0x000f0000) >>> 16).toNat = limit.toNat / 2 ^ 16 % 2 ^ 4 :=
    toNat_field limit 4 16 (by decide)
  show ((((limit &&& 0x000f0000) >>> 16) + attrHigh.setWidth 32).setWidth 8).toNat = _
  rw [BitVec.toNat_setWidth, BitVec.toNat_add, hfield, BitVec.toNat_setWidth]
  omega

/-- Taking the fields out of the eight bytes. -/
theorem decode_packed (hl : limit.toNat < 2 ^ 20) (ha : attrHigh.toNat % 2 ^ 4 = 0) :
    Segment.decode (Bytes.packed (makeGdtDesc descAddr limit attrLow attrHigh).fields) =
      ⟨descAddr.toNat, limit.toNat, attrLow.toNat, attrHigh.toNat⟩ := by
  have hbase := descAddr.isLt
  have hlow := attrLow.isLt
  have hhigh := attrHigh.isLt
  have h1 : (makeGdtDesc descAddr limit attrLow attrHigh).limitLowWord.toNat = limit.toNat % 2 ^ 16 :=
    toNat_lowWord limit
  have h2 : (makeGdtDesc descAddr limit attrLow attrHigh).baseLowWord.toNat = descAddr.toNat % 2 ^ 16 :=
    toNat_lowWord descAddr
  have h3 := makeGdtDesc_baseMid descAddr limit attrLow attrHigh
  have h4 : (makeGdtDesc descAddr limit attrLow attrHigh).attrLowByte = attrLow := rfl
  have h5 := makeGdtDesc_shared descAddr limit attrLow attrHigh ha
  have h6 := makeGdtDesc_baseHigh descAddr limit attrLow attrHigh
  rw [Segment.decode_gdtDesc, h1, h2, h3, h4, h5, h6, Segment.mk.injEq]
  refine ⟨?_, ?_, rfl, ?_⟩
  · omega
  · omega
  · omega

theorem storeGdtDesc_decode (m : Bytes) (a : Nat) (hl : limit.toNat < 2 ^ 20) (ha : attrHigh.toNat % 2 ^ 4 = 0) :
    Segment.decode ((storeGdtDesc m a (makeGdtDesc descAddr limit attrLow attrHigh)).read 8 a) =
      ⟨descAddr.toNat, limit.toNat, attrLow.toNat, attrHigh.toNat⟩ := by
  rw [← decode_packed descAddr limit attrLow attrHigh hl ha, ← Bytes.read_writeFields _ a m]
  rfl

theorem storeGdtDesc_out (m : Bytes) (a b : Nat) (desc : GdtDesc) (h : b + 8 ≤ a ∨ a + 8 ≤ b) :
    (storeGdtDesc m a desc).read 8 b = m.read 8 b :=
  Bytes.read_writeFields_out m desc.fields a 8 b h

end

theorem storeGateDesc_decode (m : Bytes) (a : Nat) (attr : BitVec 8) (function : Word32) :
    Gate.decode ((storeGateDesc m a (makeIdtDesc attr function)).read 8 a) =
      ⟨function.toNat, SELECTOR_K_CODE.toNat, 0, attr.toNat⟩ := by
  have hlt := function.isLt
  have hread : (storeGateDesc m a (makeIdtDesc attr function)).read 8 a =
    Bytes.packed (makeIdtDesc attr function).fields := Bytes.read_writeFields _ a m
  rw [hread, Gate.decode_gateDesc, makeIdtDesc_low, makeIdtDesc_high, Gate.mk.injEq]
  refine ⟨?_, rfl, rfl, rfl⟩
  omega

/-- **Descriptors decode to what was encoded.**  Wherever the result is stored, the processor finds the four
arguments of `make_gdt_desc` in it, and the handler and the attributes of `make_idt_desc`. -/
theorem descriptors_decode :
    (∀ (m : Bytes) (a : Nat) (descAddr limit : Word32) (attrLow attrHigh : BitVec 8), limit.toNat < 2 ^ 20 →
      attrHigh.toNat % 2 ^ 4 = 0 →
      Segment.decode ((storeGdtDesc m a (makeGdtDesc descAddr limit attrLow attrHigh)).read 8 a) =
        ⟨descAddr.toNat, limit.toNat, attrLow.toNat, attrHigh.toNat⟩) ∧
    (∀ (m : Bytes) (a : Nat) (attr : BitVec 8) (function : Word32),
      Gate.decode ((storeGateDesc m a (makeIdtDesc attr function)).read 8 a) =
        ⟨function.toNat, SELECTOR_K_CODE.toNat, 0, attr.toNat⟩) :=
  ⟨fun m a descAddr limit attrLow attrHigh => storeGdtDesc_decode descAddr limit attrLow attrHigh m a,
    storeGateDesc_decode⟩

/-- The descriptor of a TSS and the gate of a handler. -/
theorem descriptors_decode_tss (m : Bytes) :
    Segment.decode ((storeGdtDesc m 0xc0000923 (makeGdtDesc 0xc0009a2c 0xf1234 TSS_ATTR_LOW TSS_ATTR_HIGH)).read 8
      0xc0000923) = ⟨0xc0009a2c, 0xf1234, 0x89, 0x80⟩ ∧
    Gate.decode ((storeGateDesc m 0xc0000000 (makeIdtDesc IDT_DESC_ATTR_DPL3 0xc0001540)).read 8 0xc0000000) =
      ⟨0xc0001540, 8, 0, 0xee⟩ :=
  ⟨descriptors_decode.1 m _ 0xc0009a2c 0xf1234 TSS_ATTR_LOW TSS_ATTR_HIGH (by decide) (by decide),
    descriptors_decode.2 m _ IDT_DESC_ATTR_DPL3 0xc0001540⟩

/-! ## After tss_init -/

/-- The table that `lgdt` is given has a TSS at the kernel's `tss` and two flat segments of 4 GB for user
programs, and the four descriptors of the loader are as before, unless `tss` lies over them. -/
theorem tssInit_segments (m : Bytes) (tss : Word32) (htss : tss ≠ 0) : ∃ m', tssInit m tss = some m' ∧
    segmentOf m' SELECTOR_TSS = ⟨tss.toNat, 107, TSS_ATTR_LOW.toNat, TSS_ATTR_HIGH.toNat⟩ ∧
    segmentOf m' SELECTOR_U_CODE = ⟨0, 0xfffff, GDT_CODE_ATTR_LOW_DPL3.toNat, GDT_ATTR_HIGH.toNat⟩ ∧
    segmentOf m' SELECTOR_U_DATA = ⟨0, 0xfffff, GDT_DATA_ATTR_LOW_DPL3.toNat, GDT_ATTR_HIGH.toNat⟩ ∧
    (tss.toNat + 108 ≤ 0xc0000903 ∨ 0xc0000923 ≤ tss.toNat → ∀ sel : Selector, sel.toNat / 8 < 4 →
      segmentOf m' sel = segmentOf m sel) := by
  have hne : tss.toNat ≠ 0 := fun h => htss (BitVec.eq_of_toNat_eq h)
  obtain ⟨m1, hm1, hset⟩ := memset_eq m 0 TSS_SIZE.toNat hne
  have hsize : TSS_SIZE.toNat = 108 := rfl
  have hgdt : gdtOperand / 2 ^ 16 = 0xc0000903 := by decide
  have h4 : SELECTOR_TSS.toNat / 8 = 4 := rfl
  have h5 : SELECTOR_U_CODE.toNat / 8 = 5 := rfl
  have h6 : SELECTOR_U_DATA.toNat / 8 = 6 := rfl
  unfold tssInit
  simp only [hm1, Option.bind_eq_bind, Option.bind_some]
  refine ⟨_, rfl, ?_, ?_, ?_, ?_⟩
  · unfold segmentOf
    rw [hgdt, h4, storeGdtDesc_out _ _ _ _ (by omega), storeGdtDesc_out _ _ _ _ (by omega)]
    exact storeGdtDesc_decode _ _ _ _ _ _ (by decide) (by decide)
  · unfold segmentOf
    rw [hgdt, h5, storeGdtDesc_out _ _ _ _ (by omega)]
    exact storeGdtDesc_decode _ _ _ _ _ _ (by decide) (by decide)
  · unfold segmentOf
    rw [hgdt, h6]
    exact storeGdtDesc_decode _ _ _ _ _ _ (by decide) (by decide)
  · intro happart sel hsel
    unfold segmentOf
    rw [hgdt, storeGdtDesc_out _ _ _ _ (by omega), storeGdtDesc_out _ _ _ _ (by omega),
      storeGdtDesc_out _ _ _ _ (by omega), Bytes.read_write_out _ _ _ _ _ _ (by omega),
      Bytes.read_write_out _ _ _ _ _ _ (by omega)]
    refine congrArg Segment.decode (Bytes.read_congr fun i hi => ?_)
    rw [hset, if_neg (by omega)]

end MyOs
