import Mathlib.Logic.Function.Basic
import Mavmm.StringOps

/-!
# Identifying the processor (cpu.h, cpu.c)

`early_identify_cpu` reads the vendor, the signature and the capability words
from `cpuid` into `struct cpuinfo_x86`; `display_cacheinfo` adds what the
extended functions say about the caches.  A field that the code leaves alone
keeps what was there before.  The output of `outf` is left out.
-/

namespace Mavmm

/-! ## State -/

/-- The registers after `cpuid`. -/
structure CpuidRegs where
  eax : BitVec 32
  ebx : BitVec 32
  ecx : BitVec 32
  edx : BitVec 32

/-- The answers of the processor, by the function number in `eax`. -/
abbrev Cpuid := BitVec 32 → CpuidRegs

/-- `struct cpuinfo_x86`. -/
structure CpuinfoX86 where
  x86 : BitVec 8
  x86Vendor : BitVec 8
  x86Model : BitVec 8
  x86Mask : BitVec 8
  cpuidMaxStdfunc : BitVec 32
  cpuidMaxExfunc : BitVec 32
  x86Capability : Nat → BitVec 32
  x86VendorId : Nat → Byte
  x86ModelId : Nat → Byte
  x86CacheSize : BitVec 32
  x86CacheAlignment : BitVec 32
  x86ClflushSize : BitVec 16
  x86Tlbsize : BitVec 32
  x86VirtBits : BitVec 8
  x86PhysBits : BitVec 8
  x86Power : BitVec 32
  x86MaxCores : BitVec 16

def x86VendorIntel : BitVec 8 := 0#8
def x86VendorAmd : BitVec 8 := 2#8
def x86VendorUnknown : BitVec 8 := 0xff#8

/-! ### Capability bits (cpufeature.h, bitops.h) -/

def x86FeatureFxsaveLeak : Nat := 3 * 32 + 10
def x86FeatureRepGood : Nat := 3 * 32 + 16
def x86FeatureSvm : Nat := 6 * 32 + 2

namespace CpuinfoX86

section
variable (nr : Nat) (c : CpuinfoX86)

/-- `set_bit` on `x86_capability`. -/
def setBit : CpuinfoX86 := { c with
  x86Capability := Function.update c.x86Capability (nr / 32)
    (c.x86Capability (nr / 32) ||| (1#32 <<< (nr % 32))) }

def clearBit : CpuinfoX86 := { c with
  x86Capability := Function.update c.x86Capability (nr / 32)
    (c.x86Capability (nr / 32) &&& ~~~(1#32 <<< (nr % 32))) }

def testBit : Bool := has (c.x86Capability (nr / 32)) (1#32 <<< (nr % 32))

end

end CpuinfoX86

/-! ### Characters that are stored as words -/

/-- Four characters of a string, the first one least significant. -/
def storeChars (k : Nat) (w : BitVec 32) (s : Nat → Byte) : Nat → Byte := fun i =>
  if k ≤ i ∧ i < k + 4 then w.extractLsb' (8 * (i - k)) 8 else s i

/-! ## The functions of cpu.c -/

namespace CpuinfoX86

section
variable (cpuid : Cpuid) (c : CpuinfoX86)

/-- `display_cacheinfo`. -/
def l1Cache : CpuinfoX86 :=
  let regs := cpuid 0x80000005#32
  if c.cpuidMaxExfunc ≥ 0x80000005#32 then
    { c with
      x86CacheSize := (regs.ecx >>> 24) + (regs.edx >>> 24)
      -- On K8 the L1 TLB is inclusive, so it is not counted.
      x86Tlbsize := 0#32 }
  else c

def l2Cache : CpuinfoX86 :=
  let regs := cpuid 0x80000006#32
  if c.cpuidMaxExfunc ≥ 0x80000006#32 then
    { c with
      x86CacheSize := regs.ecx >>> 16
      x86Tlbsize :=
        c.x86Tlbsize + (((regs.ebx >>> 16) &&& 0xfff#32) + (regs.ebx &&& 0xfff#32)) }
  else c

def power : CpuinfoX86 :=
  if c.cpuidMaxExfunc ≥ 0x80000007#32 then { c with x86Power := (cpuid 0x80000007#32).edx } else c

def addressBits : CpuinfoX86 :=
  let eax := (cpuid 0x80000008#32).eax
  if c.cpuidMaxExfunc ≥ 0x80000008#32 then
    { c with
      x86VirtBits := ((eax >>> 8) &&& 0xff#32).setWidth 8
      x86PhysBits := (eax &&& 0xff#32).setWidth 8 }
  else c

def displayCacheinfo : CpuinfoX86 :=
  (((c.l1Cache cpuid).l2Cache cpuid).power cpuid).addressBits cpuid

/-- `get_model_name`. -/
def storeModel (function : BitVec 32) (k : Nat) : CpuinfoX86 :=
  let v := cpuid function
  { c with
    x86ModelId := storeChars (k + 12) v.edx (storeChars (k + 8) v.ecx
      (storeChars (k + 4) v.ebx (storeChars k v.eax c.x86ModelId))) }

def getModelName : CpuinfoX86 :=
  let c := ((c.storeModel cpuid 0x80000002#32 0).storeModel cpuid 0x80000003#32 16).storeModel
    cpuid 0x80000004#32 32
  { c with x86ModelId := Function.update c.x86ModelId 48 0#8 }

/-- `get_cpu_vendor`. -/
def getCpuVendor : CpuinfoX86 := { c with
  x86Vendor :=
    if strncmp c.x86VendorId (literal "AuthenticAMD") 12#64 = 0#8 then x86VendorAmd
    else if strncmp c.x86VendorId (literal "GenuineIntel") 12#64 = 0#8 then x86VendorIntel
    else x86VendorUnknown }

/-- The values before anything is known. -/
def unset : CpuinfoX86 := { c with
  x86CacheSize := -1#32
  x86Vendor := x86VendorUnknown
  x86Model := 0#8
  x86Mask := 0#8
  x86VendorId := Function.update c.x86VendorId 0 0#8
  x86ModelId := Function.update c.x86ModelId 0 0#8
  x86ClflushSize := 64#16
  x86CacheAlignment := 64#32
  x86MaxCores := 1#16
  cpuidMaxExfunc := 0#32
  x86Capability := fun _ => 0#32 }

def readVendorId : CpuinfoX86 :=
  let regs := cpuid 0#32
  { c with
    cpuidMaxStdfunc := regs.eax
    x86VendorId := storeChars 4 regs.edx (storeChars 8 regs.ecx
      (storeChars 0 regs.ebx c.x86VendorId)) }

/-- Level 1: the signature and the standard capabilities. -/
def readStandard : CpuinfoX86 :=
  if c.cpuidMaxStdfunc ≥ 1#32 then
    let regs := cpuid 1#32
    let tfms := regs.eax
    let family : BitVec 8 := ((tfms >>> 8) &&& 0xf#32).setWidth 8
    let model : BitVec 8 := ((tfms >>> 4) &&& 0xf#32).setWidth 8
    let caps := Function.update (Function.update c.x86Capability 4 regs.ecx) 0 regs.edx
    { c with
      x86Capability := caps
      x86 := if family ≥ 6#8 then family + ((tfms >>> 20) &&& 0xff#32).setWidth 8 else family
      x86Model :=
        if family ≥ 6#8 then model + (((tfms >>> 16) &&& 0xf#32) <<< 4).setWidth 8 else model
      x86Mask := (tfms &&& 0xf#32).setWidth 8
      x86ClflushSize :=
        if has regs.edx (1#32 <<< 19) then (((regs.ebx >>> 8) &&& 0xff#32) * 8#32).setWidth 16
        else c.x86ClflushSize }
  else { c with x86 := 4#8 }

/-- The words of the extended level `0x80000001`. -/
def extendedWords : CpuinfoX86 :=
  let regs := cpuid 0x80000001#32
  { c with
    x86Capability := Function.update (Function.update c.x86Capability 1 regs.edx) 6 regs.ecx }

/-- Whether the processor has extended functions, and the one that is asked for. -/
def hasExtended (xlvl function : BitVec 32) : Bool :=
  xlvl &&& 0xffff0000#32 = function &&& 0xffff0000#32 ∧ xlvl ≥ function

def readExtended : CpuinfoX86 :=
  let xlvl := (cpuid 0x80000000#32).eax
  let c := { c with cpuidMaxExfunc := xlvl }
  let c := if hasExtended xlvl 0x80000001#32 then c.extendedWords cpuid else c
  if hasExtended xlvl 0x80000004#32 then c.getModelName cpuid else c

def readTransmeta : CpuinfoX86 :=
  let xlvl := (cpuid 0x80860000#32).eax
  if hasExtended xlvl 0x80860001#32 then
    { c with x86Capability := Function.update c.x86Capability 2 (cpuid 0x80860001#32).edx }
  else c

def earlyIdentifyCpu : CpuinfoX86 :=
  (((c.unset.readVendorId cpuid).getCpuVendor.readStandard cpuid).readExtended cpuid).readTransmeta
    cpuid

end

end CpuinfoX86

/-! ## The vendor -/

/-- The word that the four characters from `k` on make up. -/
def charsWord (s : Nat → Byte) (k : Nat) : BitVec 32 :=
  s (k + 3) ++ s (k + 2) ++ s (k + 1) ++ s k

theorem extractLsb'_charsWord (s : Nat → Byte) (k : Nat) {i : Nat} (hi : i < 4) :
    (charsWord s k).extractLsb' (8 * i) 8 = s (k + i) := by
  apply BitVec.eq_of_getLsbD_eq
  intro j hj
  rw [BitVec.getLsbD_extractLsb', decide_eq_true hj, Bool.true_and, charsWord]
  simp only [BitVec.getLsbD_append]
  obtain rfl | rfl | rfl | rfl : i = 0 ∨ i = 1 ∨ i = 2 ∨ i = 3 := by omega
  · simp [hj]
  · simp [show ¬ 8 + j < 8 by omega, hj]
  · simp [show ¬ 16 + j < 8 by omega, show ¬ 16 + j - 8 < 8 by omega,
      show 16 + j - 8 - 8 = j by omega, hj]
  · simp [show ¬ 24 + j < 8 by omega, show ¬ 24 + j - 8 < 8 by omega,
      show ¬ 24 + j - 8 - 8 < 8 by omega, show 24 + j - 8 - 8 - 8 = j by omega]

/-- A word is made up of its four characters. -/
theorem eq_charsWord_iff {w : BitVec 32} {s : Nat → Byte} {k : Nat} :
    w = charsWord s k ↔ ∀ i < 4, w.extractLsb' (8 * i) 8 = s (k + i) := by
  constructor
  · rintro rfl i hi
    exact extractLsb'_charsWord s k hi
  · intro h
    apply BitVec.eq_of_getLsbD_eq
    intro j hj
    have hbyte := (h (j / 8) (by omega)).trans (extractLsb'_charsWord s k (by omega)).symm
    have hbit := congrArg (fun b => b.getLsbD (j % 8)) hbyte
    simp only [BitVec.getLsbD_extractLsb', show j % 8 < 8 by omega, decide_true, Bool.true_and,
      Nat.div_add_mod] at hbit
    exact hbit

/-- The three registers spell the text, in the order `ebx`, `edx`, `ecx`. -/
def CpuidRegs.Names (regs : CpuidRegs) (text : Nat → Byte) : Prop :=
  regs.ebx = charsWord text 0 ∧ regs.edx = charsWord text 4 ∧ regs.ecx = charsWord text 8

instance (regs : CpuidRegs) (text : Nat → Byte) : Decidable (regs.Names text) :=
  inferInstanceAs (Decidable (_ ∧ _ ∧ _))

namespace CpuinfoX86

variable {cpuid : Cpuid} {c : CpuinfoX86}

theorem names_iff (text : Nat → Byte) : (cpuid 0#32).Names text ↔
    ∀ i < 12, (c.readVendorId cpuid).x86VendorId i = text i := by
  unfold CpuidRegs.Names
  rw [eq_charsWord_iff, eq_charsWord_iff, eq_charsWord_iff]
  constructor
  · rintro ⟨hebx, hedx, hecx⟩ i hi
    rcases Nat.lt_or_ge i 4 with h | h
    · have := hebx i h
      simpa [readVendorId, storeChars, h, show ¬ 4 ≤ i by omega, show ¬ 8 ≤ i by omega]
    · rcases Nat.lt_or_ge i 8 with h' | h'
      · have := hedx (i - 4) (by omega)
        rw [Nat.add_sub_cancel' h] at this
        simpa [readVendorId, storeChars, h, h']
      · have := hecx (i - 8) (by omega)
        rw [Nat.add_sub_cancel' h'] at this
        simpa [readVendorId, storeChars, h', hi, show ¬ i < 8 by omega]
  · intro h
    refine ⟨fun i hi => ?_, fun i hi => ?_, fun i hi => ?_⟩
    · rw [Nat.zero_add, ← h i (by omega)]
      simp [readVendorId, storeChars, hi, show ¬ 4 ≤ i by omega, show ¬ 8 ≤ i by omega]
    · rw [← h (4 + i) (by omega)]
      simp [readVendorId, storeChars, show 4 + i < 8 by omega]
    · rw [← h (8 + i) (by omega)]
      simp [readVendorId, storeChars, show 8 + i < 12 by omega]

theorem strncmp_vendorId {text : Nat → Byte} {t : List Byte} (ht : Spells text 0 t)
    (hlen : 12 ≤ t.length) :
    strncmp (c.readVendorId cpuid).x86VendorId text 12#64 = 0#8 ↔ (cpuid 0#32).Names text := by
  rw [names_iff (c := c)]
  unfold strncmp
  rw [show (12#64).toNat = 12 from rfl, strncmpLoop_eq_zero_iff ht hlen]
  simp only [Nat.zero_add]

/-- The vendor by the registers of function 0. -/
def vendorOf (regs : CpuidRegs) : BitVec 8 :=
  if regs.Names (literal "AuthenticAMD") then x86VendorAmd
  else if regs.Names (literal "GenuineIntel") then x86VendorIntel
  else x86VendorUnknown

theorem x86Vendor_getCpuVendor :
    (c.readVendorId cpuid).getCpuVendor.x86Vendor = vendorOf (cpuid 0#32) := by
  have hamd : Spells (literal "AuthenticAMD") 0
      [0x41#8, 0x75#8, 0x74#8, 0x68#8, 0x65#8, 0x6e#8, 0x74#8, 0x69#8, 0x63#8, 0x41#8, 0x4d#8,
        0x44#8] := by decide +kernel
  have hintel : Spells (literal "GenuineIntel") 0
      [0x47#8, 0x65#8, 0x6e#8, 0x75#8, 0x69#8, 0x6e#8, 0x65#8, 0x49#8, 0x6e#8, 0x74#8, 0x65#8,
        0x6c#8] := by decide +kernel
  unfold getCpuVendor vendorOf
  simp only [strncmp_vendorId hamd (Nat.le_refl _), strncmp_vendorId hintel (Nat.le_refl _)]

section
variable (cpuid c)

@[simp] theorem x86Vendor_readStandard : (c.readStandard cpuid).x86Vendor = c.x86Vendor := by
  unfold readStandard
  split
  · rfl
  · rfl

@[simp] theorem x86Vendor_readExtended : (c.readExtended cpuid).x86Vendor = c.x86Vendor := by
  unfold readExtended
  dsimp only
  split
  · split
    · rfl
    · rfl
  · split
    · rfl
    · rfl

@[simp] theorem x86Vendor_readTransmeta : (c.readTransmeta cpuid).x86Vendor = c.x86Vendor := by
  unfold readTransmeta
  dsimp only
  split
  · rfl
  · rfl

theorem x86Vendor_earlyIdentifyCpu :
    (c.earlyIdentifyCpu cpuid).x86Vendor = vendorOf (cpuid 0#32) := by
  unfold earlyIdentifyCpu
  rw [x86Vendor_readTransmeta, x86Vendor_readExtended, x86Vendor_readStandard,
    x86Vendor_getCpuVendor]

/-! ## The capability words -/

theorem x86Capability_six_readStandard :
    (c.readStandard cpuid).x86Capability 6 = c.x86Capability 6 := by
  unfold readStandard
  split
  · simp
  · rfl

theorem x86Capability_six_readExtended : (c.readExtended cpuid).x86Capability 6 =
    if hasExtended (cpuid 0x80000000#32).eax 0x80000001#32 then (cpuid 0x80000001#32).ecx
    else c.x86Capability 6 := by
  unfold readExtended
  by_cases hwords : hasExtended (cpuid 0x80000000#32).eax 0x80000001#32
  · simp only [hwords, if_true]
    split
    · simp [getModelName, storeModel, extendedWords]
    · simp [extendedWords]
  · simp only [hwords, Bool.false_eq_true, if_false]
    split
    · rfl
    · rfl

theorem x86Capability_six_readTransmeta :
    (c.readTransmeta cpuid).x86Capability 6 = c.x86Capability 6 := by
  unfold readTransmeta
  dsimp only
  split
  · simp
  · rfl

/-- The word with the feature bit of SVM is the one that the extended level fills. -/
theorem x86Capability_six_earlyIdentifyCpu :
    (c.earlyIdentifyCpu cpuid).x86Capability 6 =
      if hasExtended (cpuid 0x80000000#32).eax 0x80000001#32 then (cpuid 0x80000001#32).ecx
      else 0#32 := by
  unfold earlyIdentifyCpu
  rw [x86Capability_six_readTransmeta, x86Capability_six_readExtended,
    x86Capability_six_readStandard]
  rfl

@[simp] theorem x86Capability_displayCacheinfo :
    (c.displayCacheinfo cpuid).x86Capability = c.x86Capability := by
  unfold displayCacheinfo addressBits power l2Cache l1Cache
  dsimp only
  repeat' split
  all_goals rfl

end

end CpuinfoX86

end Mavmm
