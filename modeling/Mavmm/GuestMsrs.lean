import Mavmm.VmxControls
import Mavmm.VmxSetup

/-!
# The guest's MSR list (vmcs.c)

The processor stores the registers of the list when it leaves the guest and
loads them when it enters it again.  The list is an array of `struct
vmx_msr_entry` with its length in `struct vm_info`; two fields of the VMCS have
the length as well.  Over any run of calls it is a finite map from register
numbers to values, up to its 256 entries.
-/

namespace Mavmm

/-! ## Reading and writing an entry -/

/-- `vmx_read_guest_msr`: what it returns, and what it leaves in `*val`. -/
def vmxReadGuestMsr (msr : BitVec 32) : SetupM (Int × Option (BitVec 64)) := do
  let s ← Exec.probe (Probe.read id)
  match findMsr s.mem s.msrs.area msr s.msrs.count.toNat with
  | some i => return (0, some (s.mem.load64 (msrEntryAt s.msrs.area i + 8#64)))
  | none => return (-1, none)

/-- `vmx_write_guest_msr`. -/
def vmxWriteGuestMsr (msr : BitVec 32) (val : BitVec 64) : SetupM Int := do
  let s ← Exec.probe (Probe.read id)
  match findMsr s.mem s.msrs.area msr s.msrs.count.toNat with
  | some i =>
    let data := msrEntryAt s.msrs.area i + 8#64
    giveCpu [.store .guest data 8]
    Exec.modify (VmxSetup.setMem (s.mem.store64 data val))
    return 0
  | none => return -1

/-! ## Runs of calls -/

inductive MsrCall where
  | add (msr : BitVec 32)
  | write (msr : BitVec 32) (val : BitVec 64)
  | read (msr : BitVec 32)
deriving DecidableEq

/-- What a call returns, and what a read stores. -/
abbrev MsrAnswer := Int × Option (BitVec 64)

def MsrCall.perform : MsrCall → SetupM MsrAnswer
  | .add msr => do
    let rc ← vmxAddGuestMsr msr
    return (rc, none)
  | .write msr val => do
    let rc ← vmxWriteGuestMsr msr val
    return (rc, none)
  | .read msr => vmxReadGuestMsr msr

/-- The monitor's data with the fields of the current VMCS. -/
structure MsrMachine where
  setup : VmxSetup
  vmcs : StartField → BitVec 64

/-- A field after what the processor was given. -/
def vmcsAfter (vmcs : StartField → BitVec 64) (log : List VmxEvent) : StartField → BitVec 64 :=
  log.foldl (fun vmcs e => match e with
    | .vmwriteStart field value => fun f => if f = field then value else vmcs f
    | _ => vmcs) vmcs

/-- A call with its answer. -/
def MsrStep (m : MsrMachine) (i : MsrCall × MsrAnswer) (m' : MsrMachine) : Prop :=
  ∃ log, i.1.perform.Runs m.setup log i.2 m'.setup ∧ m'.vmcs = vmcsAfter m.vmcs log

/-- No register is in the list, and the processor has been told so. -/
structure EmptyMsrList (m : MsrMachine) : Prop where
  count : m.setup.msrs.count = 0#32
  vmcs : ∀ f ∈ MsrList.guest.countFields, m.vmcs f = 0#64

/-! ## The list as a map -/

/-- What a call does to the value of a register, if it has one. -/
def valueStep (msr : BitVec 32) (v : Option (BitVec 64)) :
    MsrCall × MsrAnswer → Option (BitVec 64)
  | (.add added, rc, _) => if added = msr ∧ rc = 0 then some (v.getD 0#64) else v
  | (.write written val, _) => if written = msr then v.map fun _ => val else v
  | (.read _, _) => v

/-- The value of a register after the calls: 0 since it was added, then what was written last. -/
def valueAfter (calls : List (MsrCall × MsrAnswer)) (msr : BitVec 32) : Option (BitVec 64) :=
  calls.foldl (valueStep msr) none

/-- The numbers in the area. -/
def VmxSetup.guestIndices (s : VmxSetup) : List (BitVec 32) :=
  (List.range s.msrs.count.toNat).map fun i => s.mem.load32 (msrEntryAt s.msrs.area i)

/-- The list behaves as the map that the calls make. -/
structure GuestMsrsSound (calls : List (MsrCall × MsrAnswer)) (m : MsrMachine) : Prop where
  distinct : m.setup.guestIndices.Nodup
  atMost : m.setup.guestIndices.length ≤ 256
  read : ∀ msr v, valueAfter calls msr = some v →
    (vmxReadGuestMsr msr).Runs m.setup [] (0, some v) m.setup
  readAbsent : ∀ msr, valueAfter calls msr = none →
    (vmxReadGuestMsr msr).Runs m.setup [] (-1, none) m.setup
  write : ∀ msr val, valueAfter calls msr ≠ none →
    ∃ s', (vmxWriteGuestMsr msr val).Returns m.setup 0 s'
  writeAbsent : ∀ msr val, valueAfter calls msr = none →
    (vmxWriteGuestMsr msr val).Runs m.setup [] (-1) m.setup
  addFull : ∀ msr, valueAfter calls msr = none → m.setup.guestIndices.length = 256 →
    (vmxAddGuestMsr msr).Runs m.setup [] (-1) m.setup
  addFails : ∀ msr log s', (vmxAddGuestMsr msr).Runs m.setup log (-1) s' →
    m.setup.guestIndices.length = 256 ∧ log = [] ∧ s' = m.setup
  counts : ∀ f ∈ MsrList.guest.countFields, m.vmcs f = m.setup.msrs.count.setWidth 64

/-! ## The area -/

namespace VmxSetup

/-- The number in an entry. -/
def msrIndex (s : VmxSetup) (i : Nat) : BitVec 32 := s.mem.load32 (msrEntryAt s.msrs.area i)

/-- The data in an entry. -/
def msrData (s : VmxSetup) (i : Nat) : BitVec 64 := s.mem.load64 (msrEntryAt s.msrs.area i + 8#64)

end VmxSetup

section
variable {i j : Nat}

theorem msrEntryAt_add (area : BitVec 64) (c : Nat) :
    msrEntryAt area i + BitVec.ofNat 64 c = area + BitVec.ofNat 64 (16 * i + c) := by
  unfold msrEntryAt msrEntrySize
  rw [BitVec.ofNat_add, BitVec.add_assoc]

/-- Parts of the area are apart as their offsets are: it is far smaller than the address space. -/
theorem msrEntry_apart (area : BitVec 64) {c d n k : Nat} (hi : i < 256) (hj : j < 256)
    (hc : c + n ≤ 16) (hd : d + k ≤ 16)
    (h : 16 * i + c + n ≤ 16 * j + d ∨ 16 * j + d + k ≤ 16 * i + c) :
    Mem.Apart (msrEntryAt area i + BitVec.ofNat 64 c) n
      (msrEntryAt area j + BitVec.ofNat 64 d) k := by
  rw [msrEntryAt_add, msrEntryAt_add]
  exact Mem.apart_of_offsets area (by omega) (by omega) h

end

/-- The list has the values of a map, one entry for each register. -/
structure ListsMsrs (value : BitVec 32 → Option (BitVec 64)) (s : VmxSetup) : Prop where
  atMost : s.msrs.count.toNat ≤ 256
  area : s.msrs.count.toNat ≠ 0 → s.msrs.area ≠ 0#64
  distinct : ∀ i < s.msrs.count.toNat, ∀ j < s.msrs.count.toNat, s.msrIndex i = s.msrIndex j → i = j
  lookup : ∀ msr v, value msr = some v ↔
    ∃ i < s.msrs.count.toNat, s.msrIndex i = msr ∧ s.msrData i = v

namespace ListsMsrs

variable {value : BitVec 32 → Option (BitVec 64)} {s : VmxSetup} {msr : BitVec 32} {i : Nat}

theorem findMsr_eq_some (h : ListsMsrs value s)
    (hfind : findMsr s.mem s.msrs.area msr s.msrs.count.toNat = some i) :
    i < s.msrs.count.toNat ∧ s.msrIndex i = msr ∧ value msr = some (s.msrData i) := by
  have hi : i < s.msrs.count.toNat := List.mem_range.mp (List.mem_of_find?_eq_some hfind)
  have hfound := List.find?_some hfind
  have hindex : s.msrIndex i = msr := of_decide_eq_true hfound
  exact ⟨hi, hindex, (h.lookup msr _).mpr ⟨i, hi, hindex, rfl⟩⟩

theorem findMsr_eq_none (h : ListsMsrs value s) :
    findMsr s.mem s.msrs.area msr s.msrs.count.toNat = none ↔ value msr = none := by
  constructor
  · intro hfind
    cases hv : value msr with
    | none => rfl
    | some v =>
      obtain ⟨i, hi, hindex, -⟩ := (h.lookup msr v).mp hv
      exact absurd (decide_eq_true hindex) (List.find?_eq_none.mp hfind i (List.mem_range.mpr hi))
  · intro hv
    cases hfind : findMsr s.mem s.msrs.area msr s.msrs.count.toNat with
    | none => rfl
    | some i => exact nomatch hv.symm.trans (h.findMsr_eq_some hfind).2.2

/-- The entry of a register that has a value. -/
theorem exists_findMsr (h : ListsMsrs value s) (hv : value msr ≠ none) :
    ∃ i, findMsr s.mem s.msrs.area msr s.msrs.count.toNat = some i :=
  Option.ne_none_iff_exists'.mp fun hfind => hv (h.findMsr_eq_none.mp hfind)

theorem nodup (h : ListsMsrs value s) : s.guestIndices.Nodup := by
  unfold VmxSetup.guestIndices List.Nodup
  rw [List.pairwise_map]
  refine List.nodup_range.imp_of_mem ?_
  intro i j hi hj hne hij
  exact hne (h.distinct i (List.mem_range.mp hi) j (List.mem_range.mp hj) hij)

/-! ### Reading and writing -/

theorem read (h : ListsMsrs value s) {v : BitVec 64} (hv : value msr = some v) :
    (vmxReadGuestMsr msr).Runs s [] (0, some v) s := by
  have hne : value msr ≠ none := by simp [hv]
  obtain ⟨i, hfind⟩ := h.exists_findMsr hne
  have hdata := (h.findMsr_eq_some hfind).2.2
  rw [hv] at hdata
  unfold vmxReadGuestMsr Exec.Runs
  rw [Exec.run_read_bind]
  simp only [id, hfind]
  rw [Option.some.inj hdata]
  rfl

theorem readAbsent (h : ListsMsrs value s) (hv : value msr = none) :
    (vmxReadGuestMsr msr).Runs s [] (-1, none) s := by
  unfold vmxReadGuestMsr Exec.Runs
  rw [Exec.run_read_bind]
  simp only [id, h.findMsr_eq_none.mpr hv]
  rfl

theorem writeAbsent (h : ListsMsrs value s) (hv : value msr = none) (val : BitVec 64) :
    (vmxWriteGuestMsr msr val).Runs s [] (-1) s := by
  unfold vmxWriteGuestMsr Exec.Runs
  rw [Exec.run_read_bind]
  simp only [id, h.findMsr_eq_none.mpr hv]
  rfl

end ListsMsrs

/-- The data of one entry are written: the other entries and all numbers stay. -/
theorem msrIndex_write {s : VmxSetup} {i j : Nat} {val : BitVec 64} (hi : i < 256) (hj : j < 256) :
    (s.setMem (s.mem.store64 (msrEntryAt s.msrs.area i + 8#64) val)).msrIndex j = s.msrIndex j := by
  have hapart := msrEntry_apart s.msrs.area (c := 8) (d := 0) (n := 8) (k := 4) hi hj
    (by omega) (by omega) (by omega)
  rw [BitVec.add_zero] at hapart
  exact @Mem.load_store_apart s.mem 8 4 _ _ val hapart

theorem msrData_write {s : VmxSetup} {i j : Nat} {val : BitVec 64} (hi : i < 256) (hj : j < 256) :
    (s.setMem (s.mem.store64 (msrEntryAt s.msrs.area i + 8#64) val)).msrData j =
      if j = i then val else s.msrData j := by
  split
  · next h =>
    subst h
    exact Mem.load64_store64 _ _ _
  · next h =>
    exact Mem.load64_store64_apart val
      (msrEntry_apart s.msrs.area (c := 8) (d := 8) hi hj (by omega) (by omega) (by omega))

/-- The map after a write to a register that has a value. -/
theorem ListsMsrs.setData {value : BitVec 32 → Option (BitVec 64)} {s : VmxSetup}
    {msr : BitVec 32} {val : BitVec 64} {i : Nat} (h : ListsMsrs value s)
    (hfind : findMsr s.mem s.msrs.area msr s.msrs.count.toNat = some i) :
    ListsMsrs (fun m => if msr = m then (value m).map fun _ => val else value m)
      (s.setMem (s.mem.store64 (msrEntryAt s.msrs.area i + 8#64) val)) := by
  obtain ⟨hi, hindex, hvalue⟩ := h.findMsr_eq_some hfind
  have hlt : ∀ j < s.msrs.count.toNat, j < 256 := fun j hj => Nat.lt_of_lt_of_le hj h.atMost
  refine ⟨h.atMost, h.area, ?_, ?_⟩
  · intro j hj k hk hjk
    rw [msrIndex_write (hlt i hi) (hlt j hj), msrIndex_write (hlt i hi) (hlt k hk)] at hjk
    exact h.distinct j hj k hk hjk
  · intro m v
    have hentry : (∃ j < s.msrs.count.toNat,
        (s.setMem (s.mem.store64 (msrEntryAt s.msrs.area i + 8#64) val)).msrIndex j = m ∧
        (s.setMem (s.mem.store64 (msrEntryAt s.msrs.area i + 8#64) val)).msrData j = v) ↔
        ∃ j < s.msrs.count.toNat, s.msrIndex j = m ∧ (if j = i then val else s.msrData j) = v := by
      refine exists_congr fun j => and_congr_right fun hj => ?_
      rw [msrIndex_write (hlt i hi) (hlt j hj), msrData_write (hlt i hi) (hlt j hj)]
    refine Iff.trans ?_ hentry.symm
    split
    · next hm =>
      subst hm
      rw [hvalue, Option.map_some, Option.some.injEq]
      constructor
      · rintro rfl
        exact ⟨i, hi, hindex, if_pos rfl⟩
      · rintro ⟨j, hj, hmsr, hval⟩
        have hji : j = i := h.distinct j hj i hi (hmsr.trans hindex.symm)
        rwa [if_pos hji] at hval
    · next hm =>
      rw [h.lookup]
      refine exists_congr fun j => and_congr_right fun _ => and_congr_right fun hj => ?_
      rw [if_neg]
      rintro rfl
      exact hm (hindex.symm.trans hj)

/-- A write finds the entry of the register, or it changes nothing. -/
theorem runs_vmxWriteGuestMsr {value : BitVec 32 → Option (BitVec 64)} {s s' : VmxSetup}
    {log : List VmxEvent} {msr : BitVec 32} {val : BitVec 64} {rc : Int} (hs : ListsMsrs value s)
    (h : (vmxWriteGuestMsr msr val).Runs s log rc s') :
    value msr = none ∧ s' = s ∧ log = [] ∨
      ∃ i, findMsr s.mem s.msrs.area msr s.msrs.count.toNat = some i ∧
        s' = s.setMem (s.mem.store64 (msrEntryAt s.msrs.area i + 8#64) val) ∧
        log = [.store .guest (msrEntryAt s.msrs.area i + 8#64) 8] := by
  cases hv : value msr with
  | none =>
    have hsame := hs.writeAbsent hv val
    unfold Exec.Runs at h hsame
    rw [hsame] at h
    cases h
    exact .inl ⟨rfl, rfl, rfl⟩
  | some v =>
    have hne : value msr ≠ none := by simp [hv]
    obtain ⟨i, hfind⟩ := hs.exists_findMsr hne
    unfold vmxWriteGuestMsr at h
    rw [Exec.runs_bind_nil (t := s) (a := s) rfl, hfind] at h
    cases h
    exact .inr ⟨i, hfind, rfl, rfl⟩

/-! ### Adding -/

section
variable {s : VmxSetup} {i j : Nat} {msr : BitVec 32}

/-- The memory after `msr_area [i]` was filled. -/
def VmxSetup.filledEntry (s : VmxSetup) (i : Nat) (msr : BitVec 32) : VmxSetup :=
  let entry := msrEntryAt s.msrs.area i
  s.setMem (((s.mem.store32 entry msr).store32 (entry + 4#64) 0#32).store64 (entry + 8#64) 0#64)

theorem msrIndex_filledEntry (hi : i < 256) (hj : j < 256) :
    (s.filledEntry i msr).msrIndex j = if j = i then msr else s.msrIndex j := by
  have hdata := msrEntry_apart s.msrs.area (c := 8) (d := 0) (n := 8) (k := 4) hi hj
    (by omega) (by omega) (by omega)
  have hmbz := msrEntry_apart s.msrs.area (c := 4) (d := 0) (n := 4) (k := 4) hi hj
    (by omega) (by omega) (by omega)
  rw [BitVec.add_zero] at hdata hmbz
  have hstores : (s.filledEntry i msr).msrIndex j =
      (s.mem.store32 (msrEntryAt s.msrs.area i) msr).load32 (msrEntryAt s.msrs.area j) :=
    (@Mem.load_store_apart _ 8 4 _ _ 0#64 hdata).trans (Mem.load32_store32_apart 0#32 hmbz)
  rw [hstores]
  split
  · next h =>
    subst h
    exact Mem.load32_store32 _ _ _
  · next h =>
    have hindex := msrEntry_apart s.msrs.area (c := 0) (d := 0) (n := 4) (k := 4) hi hj
      (by omega) (by omega) (by omega)
    rw [BitVec.add_zero, BitVec.add_zero] at hindex
    exact Mem.load32_store32_apart msr hindex

theorem msrData_filledEntry (hi : i < 256) (hj : j < 256) :
    (s.filledEntry i msr).msrData j = if j = i then 0#64 else s.msrData j := by
  split
  · next h =>
    subst h
    exact Mem.load64_store64 _ _ _
  · next h =>
    have hdata := msrEntry_apart s.msrs.area (c := 8) (d := 8) (n := 8) (k := 8) hi hj
      (by omega) (by omega) (by omega)
    have hmbz := msrEntry_apart s.msrs.area (c := 4) (d := 8) (n := 4) (k := 8) hi hj
      (by omega) (by omega) (by omega)
    have hindex := msrEntry_apart s.msrs.area (c := 0) (d := 8) (n := 4) (k := 8) hi hj
      (by omega) (by omega) (by omega)
    rw [BitVec.add_zero] at hindex
    exact (Mem.load64_store64_apart 0#64 hdata).trans
      ((@Mem.load_store_apart _ 4 8 _ _ 0#32 hmbz).trans
        (@Mem.load_store_apart _ 4 8 _ _ msr hindex))

/-- The list with one more entry. -/
def VmxSetup.appended (s : VmxSetup) (msr : BitVec 32) : VmxSetup :=
  (s.filledEntry s.msrs.count.toNat msr).setMsrArea .guest
    { area := s.msrs.area, count := s.msrs.count + 1#32 }

/-- What the processor is given with a new entry. -/
def appendLog (s : VmxSetup) : List VmxEvent :=
  let entry := msrEntryAt s.msrs.area s.msrs.count.toNat
  let count := (s.msrs.count + 1#32).setWidth 64
  [.store .guest entry 4, .store .guest (entry + 4#64) 4, .store .guest (entry + 8#64) 8,
   .vmwriteStart .vmExitMsrStoreCount count, .vmwriteStart .vmEntryMsrLoadCount count]

theorem toNat_count_succ (hlt : s.msrs.count.toNat < 256) :
    (s.msrs.count + 1#32).toNat = s.msrs.count.toNat + 1 := by
  bv_omega

theorem ListsMsrs.append {value : BitVec 32 → Option (BitVec 64)} (h : ListsMsrs value s)
    (hv : value msr = none) (harea : s.msrs.area ≠ 0#64) (hlt : s.msrs.count.toNat < 256) :
    ListsMsrs (fun m => if msr = m then some 0#64 else value m) (s.appended msr) := by
  have hcount : (s.appended msr).msrs.count.toNat = s.msrs.count.toNat + 1 := toNat_count_succ hlt
  have hindex : ∀ j ≤ s.msrs.count.toNat, (s.appended msr).msrIndex j =
      if j = s.msrs.count.toNat then msr else s.msrIndex j :=
    fun j hj => msrIndex_filledEntry hlt (by omega)
  have hdata : ∀ j ≤ s.msrs.count.toNat, (s.appended msr).msrData j =
      if j = s.msrs.count.toNat then 0#64 else s.msrData j :=
    fun j hj => msrData_filledEntry hlt (by omega)
  have hnew : ∀ j < s.msrs.count.toNat, s.msrIndex j ≠ msr := by
    intro j hj hmsr
    exact nomatch hv.symm.trans ((h.lookup msr _).mpr ⟨j, hj, hmsr, rfl⟩)
  refine ⟨by omega, fun _ => harea, ?_, ?_⟩
  · intro j hj k hk hjk
    rw [hcount] at hj hk
    rw [hindex j (by omega), hindex k (by omega)] at hjk
    split at hjk
    · split at hjk
      · omega
      · next hk' => exact absurd hjk.symm (hnew k (by omega))
    · split at hjk
      · next hj' _ => exact absurd hjk (hnew j (by omega))
      · exact h.distinct j (by omega) k (by omega) hjk
  · intro m v
    rw [hcount]
    split
    · next hm =>
      subst hm
      constructor
      · intro hv0
        refine ⟨s.msrs.count.toNat, by omega, ?_, ?_⟩
        · rw [hindex _ (by omega), if_pos rfl]
        · rw [hdata _ (by omega), if_pos rfl]
          exact Option.some.inj hv0
      · rintro ⟨j, hj, hmsr, hval⟩
        rw [hindex j (by omega)] at hmsr
        rw [hdata j (by omega)] at hval
        split at hmsr
        · next heq =>
          rw [if_pos heq] at hval
          rw [hval]
        · exact absurd hmsr (hnew j (by omega))
    · next hm =>
      rw [h.lookup]
      constructor
      · rintro ⟨j, hj, hmsr, hval⟩
        have hne : j ≠ s.msrs.count.toNat := by omega
        refine ⟨j, by omega, ?_, ?_⟩
        · rw [hindex j (by omega), if_neg hne]
          exact hmsr
        · rw [hdata j (by omega), if_neg hne]
          exact hval
      · rintro ⟨j, hj, hmsr, hval⟩
        rw [hindex j (by omega)] at hmsr
        rw [hdata j (by omega)] at hval
        split at hmsr
        · exact absurd hmsr hm
        · next hne =>
          rw [if_neg hne] at hval
          exact ⟨j, by omega, hmsr, hval⟩

end

/-! ### The area is allocated the first time -/

/-- What the allocation of the area leaves alone. -/
theorem runs_allocArea {s t : VmxSetup} {es : List VmxEvent} {area : BitVec 64}
    (h : (onVmx (onHost fun host => do
      let (pfn, nalloc) ← allocHostPages 1#64 1#64 host.nalloc
      return (pfn, { host with nalloc }))).Runs s es area t) :
    es = [] ∧ t.mem = s.mem ∧ t.msrs = s.msrs := by
  unfold Exec.Runs onVmx onHost Exec.within at h
  dsimp only at h
  cases halloc : allocHostPages 1#64 1#64 s.vmx.host.nalloc with
  | error e =>
    rw [halloc] at h
    exact nomatch h
  | ok r =>
    rw [halloc] at h
    cases h
    exact ⟨rfl, rfl, rfl⟩

/-- What the first part of an add does: `t` has the area, if there is a page for it. -/
structure AreaReady (s : VmxSetup) (log : List VmxEvent) (t : VmxSetup) : Prop where
  mem : t.mem = s.mem
  count : t.msrs.count = s.msrs.count
  same : s.msrs.area ≠ 0#64 → t = s ∧ log = []
  counts : ∀ vmcs, ∀ f ∈ MsrList.guest.countFields, vmcsAfter vmcs log f = vmcs f

theorem runs_msrAreaFor {s t : VmxSetup} {log : List VmxEvent} {area : BitVec 64}
    (h : (msrAreaFor .guest).Runs s log area t) : AreaReady s log t ∧ t.msrs.area = area := by
  unfold msrAreaFor at h
  rw [Exec.runs_bind_nil (t := s) (a := s.msrs) rfl] at h
  split at h
  · obtain ⟨rfl, rfl, rfl⟩ := Exec.runs_pure.mp h
    exact ⟨⟨rfl, rfl, fun _ => ⟨rfl, rfl⟩, fun _ _ _ => rfl⟩, rfl⟩
  · next harea =>
    obtain ⟨es, pfn, u, es', halloc, hrest, rfl⟩ := Exec.runs_bind.mp h
    obtain ⟨rfl, hmem, hmsrs⟩ := runs_allocArea halloc
    rw [ne_eq, Decidable.not_not] at harea
    split at hrest
    · obtain ⟨rfl, rfl, rfl⟩ := Exec.runs_pure.mp hrest
      refine ⟨⟨hmem, by rw [hmsrs], fun hne => absurd harea hne, fun _ _ _ => rfl⟩, ?_⟩
      rw [hmsrs, harea]
    · cases hrest
      refine ⟨⟨hmem, rfl, fun hne => absurd harea hne, ?_⟩, rfl⟩
      intro vmcs f hf
      simp only [MsrList.countFields, List.mem_cons, List.not_mem_nil, or_false] at hf
      rcases hf with rfl | rfl
      · rfl
      · rfl

/-- An area that is not there yet has no entries. -/
theorem AreaReady.listsMsrs {value : BitVec 32 → Option (BitVec 64)} {s t : VmxSetup}
    {log : List VmxEvent} (h : AreaReady s log t) (hs : ListsMsrs value s) :
    ListsMsrs value t := by
  by_cases harea : s.msrs.area = 0#64
  · have hzero : s.msrs.count.toNat = 0 :=
      Decidable.byContradiction fun hne => hs.area hne harea
    have hnone : ∀ i, ¬ i < t.msrs.count.toNat := by
      intro i
      rw [h.count, hzero]
      exact Nat.not_lt_zero i
    refine ⟨by rw [h.count]; exact hs.atMost, fun hne => ?_, fun i hi => absurd hi (hnone i), ?_⟩
    · exact absurd (by rw [h.count, hzero]) hne
    · intro msr v
      rw [hs.lookup]
      constructor
      · rintro ⟨i, hi, -⟩
        exact absurd hi (by omega)
      · rintro ⟨i, hi, -⟩
        exact absurd hi (hnone i)
  · rw [(h.same harea).1]
    exact hs

/-- What the rest of an add does to a list with the values of a map. -/
inductive MsrAdd (value : BitVec 32 → Option (BitVec 64)) (msr : BitVec 32) (t : VmxSetup) :
    List VmxEvent → Int → VmxSetup → Prop
  | noPage : t.msrs.area = 0#64 → MsrAdd value msr t [] (-2) t
  | present : value msr ≠ none → MsrAdd value msr t [] 0 t
  | full : value msr = none → t.msrs.count.toNat = 256 → MsrAdd value msr t [] (-1) t
  | appended : value msr = none → t.msrs.area ≠ 0#64 → t.msrs.count.toNat < 256 →
      MsrAdd value msr t (appendLog t) 0 (t.appended msr)

theorem runs_vmxAddGuestMsr {value : BitVec 32 → Option (BitVec 64)} {s s' : VmxSetup}
    {log : List VmxEvent} {msr : BitVec 32} {rc : Int} (hs : ListsMsrs value s)
    (h : (vmxAddGuestMsr msr).Runs s log rc s') :
    ∃ before t after, AreaReady s before t ∧ MsrAdd value msr t after rc s' ∧
      log = before ++ after := by
  unfold vmxAddGuestMsr vmxAddMsr at h
  obtain ⟨before, area, t, after, harea, hrest, rfl⟩ := Exec.runs_bind.mp h
  obtain ⟨hready, rfl⟩ := runs_msrAreaFor harea
  have ht : ListsMsrs value t := hready.listsMsrs hs
  refine ⟨before, t, after, hready, ?_, rfl⟩
  split at hrest
  · next hzero =>
    obtain ⟨rfl, rfl, rfl⟩ := Exec.runs_pure.mp hrest
    exact .noPage hzero
  · next hne =>
    rw [Exec.runs_bind_nil (t := t) (a := t) rfl] at hrest
    change Exec.Runs (if (findMsr t.mem t.msrs.area msr t.msrs.count.toNat).isSome then pure 0
      else if t.msrs.count.toNat = 256 then pure (-1)
      else do
        appendMsr .guest t.msrs.area msr
        pure 0) t after rc s' at hrest
    split at hrest
    · next hfound =>
      obtain ⟨rfl, rfl, rfl⟩ := Exec.runs_pure.mp hrest
      refine .present fun hv => ?_
      rw [ht.findMsr_eq_none.mpr hv] at hfound
      exact nomatch hfound
    · next hfound =>
      have hv : value msr = none := by
        rw [← ht.findMsr_eq_none]
        exact Option.not_isSome_iff_eq_none.mp hfound
      split at hrest
      · next hfull =>
        obtain ⟨rfl, rfl, rfl⟩ := Exec.runs_pure.mp hrest
        exact .full hv hfull
      · next hnot =>
        cases hrest
        exact .appended hv hne (Nat.lt_of_le_of_ne ht.atMost hnot)

/-- An add to a full list. -/
theorem vmxAddGuestMsr_full {value : BitVec 32 → Option (BitVec 64)} {s : VmxSetup}
    {msr : BitVec 32} (hs : ListsMsrs value s) (hv : value msr = none)
    (hfull : s.msrs.count.toNat = 256) : (vmxAddGuestMsr msr).Runs s [] (-1) s := by
  have harea : s.msrs.area ≠ 0#64 := hs.area (by omega)
  have hready : (msrAreaFor .guest).Runs s [] s.msrs.area s := by
    unfold msrAreaFor
    rw [Exec.runs_bind_nil (t := s) (a := s.msrs) rfl, if_pos harea]
    rfl
  unfold vmxAddGuestMsr vmxAddMsr
  rw [Exec.runs_bind_nil hready, if_neg harea, Exec.runs_bind_nil (t := s) (a := s) rfl]
  change Exec.Runs (if (findMsr s.mem s.msrs.area msr s.msrs.count.toNat).isSome then pure 0
    else if s.msrs.count.toNat = 256 then pure (-1)
    else do
      appendMsr .guest s.msrs.area msr
      pure 0) s [] (-1) s
  rw [hs.findMsr_eq_none.mpr hv, if_neg (by simp), if_pos hfull]
  rfl

/-! ## Runs -/

/-- The processor has been told the length of the list. -/
def CountTold (m : MsrMachine) : Prop :=
  ∀ f ∈ MsrList.guest.countFields, m.vmcs f = m.setup.msrs.count.setWidth 64

theorem vmcsAfter_append (vmcs : StartField → BitVec 64) (before after : List VmxEvent) :
    vmcsAfter vmcs (before ++ after) = vmcsAfter (vmcsAfter vmcs before) after :=
  List.foldl_append

theorem valueStep_add_failed {m msr : BitVec 32} {v : Option (BitVec 64)} {rc : Int}
    {a : Option (BitVec 64)} (hrc : rc ≠ 0) : valueStep m v (.add msr, rc, a) = v :=
  if_neg fun h => hrc h.2

/-- What an add does to the value of a register, told by what it returns. -/
theorem MsrAdd.listsMsrs {value : BitVec 32 → Option (BitVec 64)} {msr : BitVec 32}
    {t s' : VmxSetup} {log : List VmxEvent} {rc : Int} (h : MsrAdd value msr t log rc s')
    (ht : ListsMsrs value t) :
    ListsMsrs (fun m => valueStep m (value m) (.add msr, rc, none)) s' := by
  cases h with
  | noPage _ =>
    simp only [valueStep_add_failed (show (-2 : Int) ≠ 0 by decide)]
    exact ht
  | full _ _ =>
    simp only [valueStep_add_failed (show (-1 : Int) ≠ 0 by decide)]
    exact ht
  | present hv =>
    have hsame : (fun m => valueStep m (value m) (.add msr, 0, none)) = value := by
      funext m
      unfold valueStep
      dsimp only
      split
      · next hm =>
        obtain ⟨v, hv⟩ := Option.ne_none_iff_exists'.mp hv
        rw [← hm.1, hv, Option.getD_some]
      · rfl
    rw [hsame]
    exact ht
  | appended hv harea hlt =>
    have hnew : (fun m => valueStep m (value m) (.add msr, 0, none)) =
        fun m => if msr = m then some 0#64 else value m := by
      funext m
      unfold valueStep
      dsimp only
      by_cases hm : msr = m
      · rw [if_pos ⟨hm, rfl⟩, if_pos hm, ← hm, hv, Option.getD_none]
      · rw [if_neg fun hc => hm hc.1, if_neg hm]
    rw [hnew]
    exact ht.append hv harea hlt

theorem MsrAdd.countTold {value : BitVec 32 → Option (BitVec 64)} {msr : BitVec 32}
    {t s' : VmxSetup} {log : List VmxEvent} {rc : Int} {vmcs : StartField → BitVec 64}
    (h : MsrAdd value msr t log rc s') (ht : CountTold ⟨t, vmcs⟩) :
    CountTold ⟨s', vmcsAfter vmcs log⟩ := by
  cases h with
  | noPage _ => exact ht
  | full _ _ => exact ht
  | present _ => exact ht
  | appended _ _ _ =>
    intro f hf
    simp only [MsrList.countFields, List.mem_cons, List.not_mem_nil, or_false] at hf
    rcases hf with rfl | rfl
    · rfl
    · rfl

/-- The list is the map that the calls make, and the processor knows how long it is. -/
structure MsrListInv (calls : List (MsrCall × MsrAnswer)) (m : MsrMachine) : Prop where
  lists : ListsMsrs (valueAfter calls) m.setup
  told : CountTold m

/-- `vmx_set_vm_to_mbr_start_state` leaves an empty list to the processor. -/
theorem EmptyMsrList.mbrStart {s : VmxSetup} (hcount : s.msrs.count = 0#32)
    (vmcs : StartField → BitVec 64) :
    EmptyMsrList ⟨s, vmcsAfter vmcs (vmxSetVmToMbrStartState s).1⟩ where
  count := hcount
  vmcs := by
    intro f hf
    simp only [MsrList.countFields, List.mem_cons, List.not_mem_nil, or_false] at hf
    rcases hf with rfl | rfl
    · rfl
    · rfl

theorem EmptyMsrList.inv {m : MsrMachine} (h : EmptyMsrList m) : MsrListInv [] m := by
  have hzero : m.setup.msrs.count.toNat = 0 := by rw [h.count]; rfl
  have hnone : ∀ i, ¬ i < m.setup.msrs.count.toNat := by
    intro i
    rw [hzero]
    exact Nat.not_lt_zero i
  refine ⟨⟨by omega, fun hne => absurd hzero hne, fun i hi => absurd hi (hnone i), ?_⟩, ?_⟩
  · intro msr v
    exact iff_of_false nofun fun ⟨i, hi, _⟩ => hnone i hi
  · intro f hf
    rw [h.vmcs f hf, h.count]
    rfl

theorem valueAfter_snoc (calls : List (MsrCall × MsrAnswer)) (i : MsrCall × MsrAnswer) :
    valueAfter (calls ++ [i]) = fun msr => valueStep msr (valueAfter calls msr) i := by
  funext msr
  unfold valueAfter
  rw [List.foldl_append]
  rfl

/-- Each call keeps the invariant. -/
theorem MsrListInv.step {calls : List (MsrCall × MsrAnswer)} {m m' : MsrMachine}
    {i : MsrCall × MsrAnswer} (h : MsrListInv calls m) (hstep : MsrStep m i m') :
    MsrListInv (calls ++ [i]) m' := by
  obtain ⟨call, answer⟩ := i
  obtain ⟨log, hrun, hvmcs⟩ := hstep
  obtain ⟨s', vmcs'⟩ := m'
  dsimp only at hrun hvmcs
  subst hvmcs
  cases call with
  | add msr =>
    obtain ⟨log, rc, t, es, hadd, hpure, rfl⟩ := Exec.runs_bind.mp hrun
    obtain ⟨rfl, rfl, rfl⟩ := Exec.runs_pure.mp hpure
    obtain ⟨before, u, after, hready, hresult, rfl⟩ := runs_vmxAddGuestMsr h.lists hadd
    refine ⟨?_, ?_⟩
    · rw [valueAfter_snoc]
      exact hresult.listsMsrs (hready.listsMsrs h.lists)
    · rw [List.append_nil, vmcsAfter_append]
      refine hresult.countTold fun f hf => ?_
      exact (hready.counts _ f hf).trans ((h.told f hf).trans (by rw [hready.count]))
  | write msr val =>
    obtain ⟨log, rc, t, es, hwrite, hpure, rfl⟩ := Exec.runs_bind.mp hrun
    obtain ⟨rfl, rfl, rfl⟩ := Exec.runs_pure.mp hpure
    have hvalue : valueAfter (calls ++ [(.write msr val, rc, none)]) = fun m =>
        if msr = m then (valueAfter calls m).map fun _ => val else valueAfter calls m :=
      valueAfter_snoc calls _
    rcases runs_vmxWriteGuestMsr h.lists hwrite with ⟨hv, rfl, rfl⟩ | ⟨i, hfind, rfl, rfl⟩
    · refine ⟨?_, h.told⟩
      have hsame : valueAfter (calls ++ [(.write msr val, rc, none)]) = valueAfter calls := by
        rw [hvalue]
        funext m
        split
        · next hm => rw [← hm, hv, Option.map_none]
        · rfl
      rw [hsame]
      exact h.lists
    · refine ⟨?_, h.told⟩
      rw [hvalue]
      exact h.lists.setData hfind
  | read msr =>
    have hsame : valueAfter (calls ++ [(.read msr, answer)]) = valueAfter calls :=
      valueAfter_snoc calls _
    have hread : ∃ a, (vmxReadGuestMsr msr).Runs m.setup [] a m.setup := by
      cases hv : valueAfter calls msr with
      | none => exact ⟨_, h.lists.readAbsent hv⟩
      | some v => exact ⟨_, h.lists.read hv⟩
    obtain ⟨a, hread⟩ := hread
    obtain ⟨hlog, hresult⟩ := Prod.mk.inj (hread.symm.trans hrun)
    cases hresult
    refine ⟨?_, ?_⟩
    · rw [hsame]
      exact h.lists
    · rw [← hlog]
      exact h.told

/-- From an empty list on, whatever is called: the list is the map that the calls make. -/
theorem guestMsrs_run_inv {m m' : MsrMachine} {calls : List (MsrCall × MsrAnswer)}
    (hempty : EmptyMsrList m) (h : Run MsrStep m calls m') : MsrListInv calls m' := by
  induction h with
  | nil => exact hempty.inv
  | snoc _ hstep ih => exact ih.step hstep

theorem length_guestIndices (s : VmxSetup) : s.guestIndices.length = s.msrs.count.toNat := by
  rw [VmxSetup.guestIndices, List.length_map, List.length_range]

theorem guestMsrs_sound {m m' : MsrMachine} {calls : List (MsrCall × MsrAnswer)}
    (hempty : EmptyMsrList m) (h : Run MsrStep m calls m') : GuestMsrsSound calls m' := by
  have hinv := guestMsrs_run_inv hempty h
  have hlists := hinv.lists
  have hlength := length_guestIndices m'.setup
  exact {
    distinct := hlists.nodup
    atMost := by rw [hlength]; exact hlists.atMost
    read := fun msr v hv => hlists.read hv
    readAbsent := fun msr hv => hlists.readAbsent hv
    write := fun msr val hv => by
      obtain ⟨i, hfind⟩ := hlists.exists_findMsr hv
      unfold vmxWriteGuestMsr
      simp only [Exec.returns_read_bind, id, hfind]
      exact ⟨_, rfl⟩
    writeAbsent := fun msr val hv => hlists.writeAbsent hv val
    addFull := fun msr hv hfull => vmxAddGuestMsr_full hlists hv (hlength.symm.trans hfull)
    addFails := fun msr log s' hrun => by
      obtain ⟨before, t, after, hready, hadd, rfl⟩ := runs_vmxAddGuestMsr hlists hrun
      cases hadd with
      | full _ hfull =>
        rw [hready.count] at hfull
        obtain ⟨rfl, rfl⟩ := hready.same (hlists.area (by omega))
        exact ⟨hlength.trans hfull, rfl, rfl⟩
    counts := hinv.told }

/-- A machine that has an area, and nothing in it. -/
def VmxSetup.blank : VmxSetup := { VmxSetup.created .sample with msrs := ⟨0x5000#64, 0#32⟩ }

/-- `VmxSetup.blank` with the VMCS in its start state. -/
def MsrMachine.blank : MsrMachine :=
  ⟨.blank, vmcsAfter (fun _ => 0xffffffff#64) (vmxSetVmToMbrStartState .blank).1⟩

/-- EFER is added, it is written, and what was written is read back. -/
theorem guestMsrs_sound_efer : ∃ m,
    Run MsrStep .blank [(.add 0xc0000080#32, (0, none)), (.write 0xc0000080#32 0x500#64, (0, none))]
      m ∧ (vmxReadGuestMsr 0xc0000080#32).Runs m.setup [] (0, some 0x500#64) m.setup := by
  have hempty : EmptyMsrList .blank := .mbrStart rfl _
  obtain ⟨m, hadd⟩ : ∃ m, Run MsrStep .blank [(.add 0xc0000080#32, (0, none))] m :=
    ⟨⟨VmxSetup.blank.appended 0xc0000080#32, _⟩, .snoc .nil ⟨_, rfl, rfl⟩⟩
  obtain ⟨t, hwrite⟩ := (guestMsrs_sound hempty hadd).write 0xc0000080#32 0x500#64 (by decide)
  have hstep : MsrStep m (.write 0xc0000080#32 0x500#64, (0, none)) ⟨t, _⟩ :=
    ⟨_, Exec.runs_bind.mpr ⟨_, _, _, _, hwrite.runs, Exec.runs_pure.mpr ⟨rfl, rfl, rfl⟩, rfl⟩,
      rfl⟩
  have hrun := hadd.snoc hstep
  exact ⟨_, hrun, (guestMsrs_sound hempty hrun).read 0xc0000080#32 0x500#64 rfl⟩

end Mavmm
