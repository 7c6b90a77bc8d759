import Mavmm.InterceptSpec

/-!
# What an exit accesses

Every access of a handler through a pointer of the guest goes to an address
that translates in the guest's address space or that was recorded when a file
was opened; the only other words of the guest it touches are those of the page
directory; the names it prints are those of the table; and a store into a table
stays inside the page when there is room for the entry (`handleVmexit_emits`).
-/

namespace Mavmm

/-- The tables have room for what the exit adds. -/
structure RoomFor (m : Machine) : Prop where
  waiting : m.vmcb.exitcode = vmexitSwint → intVector.Returns m 0x80#8 →
    ∀ info, OwnInfo m info → WaitingFits m.vm
  fname : m.vmcb.exitcode = vmexitIret → ∀ tid arg, (getCurThreadid 0).Returns m tid →
    m.vm.waitingSyscall tid = some (.opened arg) → FnameFits m.vm

/-- What the exit of a machine may log. -/
def Allowed (m : Machine) : Event → Prop
  | .deref p _ => Translated m.space p ∨ ∃ tid, m.vm.waitingSyscall tid = some (.opened p)
  | .descriptor p => ∃ sel, gdtentryRead m.space sel = some p
  | .dirWord a => ∃ index < 1024, a = directoryWord m.vmcb.cr3 index
  | .slot _ off len => RoomFor m → off + len ≤ pageSize
  | .fname id name => name = m.vm.fnameFromId id
  | .out .. => True

section
variable {m t : Machine} {α : Type}

/-- A state of the handler in which looking is allowed. -/
structure Sees (m t : Machine) : Prop where
  space : t.space = m.space
  fmap : t.vm.fmap = m.vm.fmap

theorem Sees.refl : Sees m m := ⟨rfl, rfl⟩

theorem Looks.allowed {x : Look α} (h : Looks x t) (hs : Sees m t) :
    (Exec.probe x).Emits (Allowed m) t := by
  refine Exec.emits_probe.mpr ⟨fun e he => ?_⟩
  have hhonest := h.all e he
  cases e with
  | deref p x => exact Or.inl (hs.space ▸ hhonest)
  | descriptor p =>
    obtain ⟨sel, hp⟩ := hhonest
    exact ⟨sel, hs.space ▸ hp⟩
  | dirWord a => exact hhonest.elim
  | slot page off len => exact hhonest.elim
  | fname id name =>
    have hname : name = t.vm.fnameFromId id := hhonest
    rw [hname]
    unfold VmInfo.fnameFromId
    rw [hs.fmap]
    rfl
  | out fmt args => trivial

/-- Output without strings of the guest, in any state. -/
theorem emits_outf {fmt : String} {args : List OutArg}
    (h : args.filterMap OutArg.deref = []) : (Exec.probe (outf fmt args)).Emits (Allowed m) t := by
  refine Exec.emits_probe.mpr (Probe.emits_log.mpr fun e he => ?_)
  rw [h, List.nil_append, List.mem_singleton] at he
  rw [he]
  trivial

theorem emits_then {x : Handler Unit} {f : Unit → Handler α}
    (hx : x.Emits (Allowed m) t) (hf : ∀ t', x.Returns t () t' → (f ()).Emits (Allowed m) t') :
    (x >>= f).Emits (Allowed m) t :=
  Exec.emits_bind.mpr ⟨hx, fun _ => hf⟩

/-- After a probe the state is the same. -/
theorem emits_probe_then {β : Type} {x : Look β} {f : β → Handler α}
    (hx : (Exec.probe x).Emits (Allowed m) t)
    (hf : ∀ b, x.Returns t b → (f b).Emits (Allowed m) t) :
    (Exec.probe x >>= f).Emits (Allowed m) t := by
  refine Exec.emits_bind.mpr ⟨hx, fun b t' h => ?_⟩
  obtain ⟨hb, rfl⟩ := Exec.returns_probe.mp h
  exact hf b hb

theorem emits_read_then {β : Type} {g : Machine → β} {f : β → Handler α}
    (hf : (f (g t)).Emits (Allowed m) t) :
    (Exec.probe (Probe.read g) >>= f).Emits (Allowed m) t :=
  emits_probe_then (Exec.emits_probe.mpr Probe.emits_read) fun _ hb =>
    Probe.returns_read.mp hb ▸ hf

/-! ## Intercepts -/

theorem emits_updateGuestDirectory {f : BitVec 32 → BitVec 32} (h : t.vmcb.cr3 = m.vmcb.cr3) :
    (updateGuestDirectory f).Emits (Allowed m) t := by
  refine emits_then (Exec.emits_probe.mpr ?_) fun _ _ => Exec.emits_modify
  refine Probe.emits_bind.mpr ⟨Probe.emits_read, fun cr3 hcr3 => Probe.emits_log.mpr fun e he => ?_⟩
  obtain ⟨index, hindex, rfl⟩ := List.mem_map.mp he
  rw [← Probe.returns_read.mp hcr3, h]
  exact ⟨index, List.mem_range.mp hindex, rfl⟩

theorem emits_vmDisableIntercept {flags : BitVec 32} (h : t.vmcb.cr3 = m.vmcb.cr3) :
    (vmDisableIntercept flags).Emits (Allowed m) t :=
  emits_then (Exec.emits_when.mpr fun _ => emits_probe_then (emits_outf rfl) fun _ _ =>
    emits_updateGuestDirectory h) fun _ _ => Exec.emits_modify

theorem emits_vmEnableIntercept {flags : BitVec 32} (h : t.vmcb.cr3 = m.vmcb.cr3) :
    (vmEnableIntercept flags).Emits (Allowed m) t :=
  emits_then (Exec.emits_when.mpr fun _ => emits_probe_then (emits_outf rfl) fun _ _ =>
    emits_updateGuestDirectory h) fun _ _ => Exec.emits_modify

theorem emits_skipIntercptCurInstr {flag : BitVec 32} (h : t.vmcb.cr3 = m.vmcb.cr3) :
    (skipIntercptCurInstr flag).Emits (Allowed m) t := by
  refine emits_then (emits_vmDisableIntercept h) fun t₁ h₁ =>
    emits_then Exec.emits_modify fun t₂ h₂ => emits_vmEnableIntercept ?_
  obtain ⟨-, hvmcb, -⟩ := vmDisableIntercept_spec h₁
  rw [← returns_modifyVm.mp h₂]
  change t₁.vmcb.cr3 = m.vmcb.cr3
  rw [hvmcb]
  exact h

/-! ## Tables -/

theorem emits_storeSlot {page : TablePage} {off len : Nat}
    (h : RoomFor m → off + len ≤ pageSize) :
    (Exec.probe (storeSlot page off len)).Emits (Allowed m) t := by
  refine Exec.emits_probe.mpr (Probe.emits_bind.mpr ⟨Probe.emits_log.mpr fun e he => ?_, ?_⟩)
  · rw [List.mem_singleton.mp he]
    exact h
  · intro _ _
    split
    · exact Probe.emits_ofExcept
    · exact Probe.emits_pure

theorem emits_vmAddFileid2nameMap {id : BitVec 32} {name : Nat → Byte}
    (h : RoomFor m → FnameFits t.vm) : (vmAddFileid2nameMap id name).Emits (Allowed m) t := by
  have hle : RoomFor m → t.vm.fmap.length * 24 + 24 ≤ pageSize := by
    intro hroom
    have := h hroom
    unfold FnameFits sizeofFid2nameMap vmMaxFilename at this
    omega
  simp only [vmAddFileid2nameMap, Exec.liftM_eq_probe, sizeofFid2nameMap, vmMaxFilename]
  refine emits_read_then (emits_probe_then (emits_storeSlot fun hroom => ?_) fun _ _ =>
    emits_probe_then (emits_storeSlot fun hroom => ?_) fun _ _ =>
      emits_probe_then (emits_storeSlot fun hroom => ?_) fun _ _ => Exec.emits_modify)
  · have := hle hroom
    omega
  · have := hle hroom
    omega
  · have := hle hroom
    omega

theorem emits_vmAddWaitingThread {tid : BitVec 32} {info : SyscallInfo}
    (h : RoomFor m → WaitingFits t.vm) : (vmAddWaitingThread tid info).Emits (Allowed m) t := by
  have hle : RoomFor m → t.vm.syscallmap.length * 32 + 32 ≤ pageSize := by
    intro hroom
    have := h hroom
    unfold WaitingFits sizeofTid2syscallMap sizeofSyscallInfo at this
    omega
  simp only [vmAddWaitingThread, Exec.liftM_eq_probe, sizeofTid2syscallMap, sizeofSyscallInfo]
  refine emits_read_then (emits_probe_then (emits_storeSlot fun hroom => ?_) fun _ _ =>
    emits_probe_then (emits_storeSlot fun hroom => ?_) fun _ _ => Exec.emits_modify)
  · have := hle hroom
    omega
  · have := hle hroom
    omega

/-! ## System calls -/

/-- Recording a thread, at the end of a handler. -/
theorem emits_record {mode : Nat} {info : SyscallInfo} (hs : Sees m t)
    (h : RoomFor m → WaitingFits t.vm) :
    (do
      let tid ← Exec.probe (getCurThreadid mode)
      vmAddWaitingThread tid info).Emits (Allowed m) t :=
  emits_probe_then (looks_getCurThreadid.allowed hs) fun _ _ => emits_vmAddWaitingThread h

section
variable (hroom : RoomFor m → ∀ info, OwnInfo m info → WaitingFits m.vm)
include hroom

theorem emits_sysRead (hread : m.callNo = sysNrRead) : sysRead.Emits (Allowed m) m := by
  simp only [sysRead, Exec.liftM_eq_probe]
  refine emits_probe_then (Looks.allowed ?_ .refl) fun _ _ =>
    emits_probe_then (looks_getCurThreadid.allowed .refl) fun _ _ =>
      emits_probe_then (looks_reg.allowed .refl) fun _ _ =>
        emits_vmAddWaitingThread fun h => hroom h _ (.read hread)
  exact looks_outFname.bind fun _ _ => looks_outWord.bind fun _ _ => looks_outReg fun _ => rfl

theorem emits_sysOpen (hopen : m.callNo = sysNrOpen) : sysOpen.Emits (Allowed m) m := by
  simp only [sysOpen, Exec.liftM_eq_probe]
  refine emits_probe_then (looks_regDs.allowed .refl) fun filename hp =>
    Exec.emits_when.mpr fun hne => emits_probe_then (Looks.allowed ?_ .refl) fun _ _ =>
      emits_record .refl fun h => hroom h _ (.opened hopen hp hne)
  exact looks_reg.bind fun _ _ => looks_reg.bind fun _ _ => looks_outf_str (translated_regDs hp) rfl

theorem emits_sysRecvfrom (hsocket : m.callNo = sysNrSocketcall)
    (hcall : m.regs.rbx.setWidth 32 = callRecvfrom) : sysRecvfrom.Emits (Allowed m) m := by
  simp only [sysRecvfrom, Exec.liftM_eq_probe]
  exact emits_probe_then (looks_socketArg.allowed .refl) fun bufferGl hbuffer =>
    emits_probe_then (looks_socketArg.allowed .refl) fun _ _ =>
      emits_probe_then (looks_socketArg.allowed .refl) fun size hsize =>
        emits_probe_then (looks_translateDs.allowed .refl) fun _ hpeer =>
          emits_probe_then ((looks_outPeerPort (translated_ds hpeer)).allowed .refl) fun _ _ =>
            emits_record .refl fun h => hroom h _ (.recvfrom hsocket hcall hbuffer hsize)

theorem emits_sysDispatch {sysNargs : Nat} :
    (sysDispatch m.callNo sysNargs).Emits (Allowed m) m := by
  unfold sysDispatch
  split
  · next hread => exact emits_sysRead hroom hread
  · split
    · next hopen => exact emits_sysOpen hroom hopen
    · split
      · next hsocket =>
        refine emits_probe_then (looks_reg.allowed .refl) fun call hreg => ?_
        rw [← Probe.returns_read.mp hreg]
        dsimp only
        split
        · next hcall => exact emits_sysRecvfrom hroom hsocket hcall
        · exact Looks.allowed (looks_sysSocket.ite (looks_outPeer.ite (looks_outPeer.ite
            (looks_sysListen.ite (looks_outPeer.ite (looks_sysSendto.ite looks_pure)))))) .refl
      · exact looks_sysLook.allowed .refl

/-- The table is empty when the record of another call is added. -/
theorem emits_handleSyscall : handleSyscall.Emits (Allowed m) m := by
  refine emits_read_then ?_
  dsimp only
  split
  · exact Exec.emits_probe.mpr Probe.emits_ofExcept
  · next entry _ =>
    simp only [Exec.liftM_eq_probe]
    refine emits_probe_then (emits_outf rfl) fun _ _ =>
      emits_then (emits_sysDispatch hroom) fun t ht => emits_read_then ?_
    have ht : (sysDispatch m.callNo entry.sysNargs).Returns m () t := ht
    have hs : Sees m t := by
      rcases sysDispatch_spec ht with ⟨tid, info, -, -, rfl⟩ | ⟨-, rfl⟩
      · exact ⟨rfl, rfl⟩
      · exact .refl
    refine emits_then (Exec.emits_when.mpr fun hempty => emits_record hs fun _ => ?_) fun _ _ =>
      emits_then Exec.emits_modify fun _ _ => emits_outf rfl
    unfold WaitingFits
    rw [hempty]
    decide

end

theorem emits_handleVmSwint (hexit : m.vmcb.exitcode = vmexitSwint) :
    handleVmSwint.Emits (Allowed m) m := by
  have hlooks : Looks intVector m := looks_read.bind fun _ _ =>
    looks_translate.bind fun _ hp => looks_loadAt (translated hp)
  refine emits_probe_then (hlooks.allowed .refl) fun vector hvector =>
    emits_then (Exec.emits_when.mpr fun h80 => ?_) fun _ _ => Exec.emits_modify
  exact emits_handleSyscall fun hroom => hroom.waiting hexit (h80 ▸ hvector)

/-! ## Returns -/

theorem emits_syscallIret {tid : BitVec 32} {info : SyscallInfo}
    (hexit : m.vmcb.exitcode = vmexitIret) (htid : (getCurThreadid 0).Returns m tid)
    (hinfo : m.vm.waitingSyscall tid = some info) : (syscallIret info).Emits (Allowed m) m := by
  cases info with
  | other => exact emits_read_then (emits_outf rfl)
  | read arg => exact looks_sysReadIret.allowed .refl
  | opened arg =>
    refine emits_probe_then (Exec.emits_probe.mpr (Probe.emits_bind.mpr
      ⟨Probe.emits_log.mpr fun e he => ?_, fun _ _ => Probe.emits_read⟩)) fun _ ht => ?_
    · rw [List.mem_singleton.mp he]
      exact Or.inr ⟨tid, hinfo⟩
    · exact emits_vmAddFileid2nameMap fun hroom => hroom.fname hexit tid arg htid hinfo
  | recvfrom arg datasize => exact looks_sysRecvfromIret.allowed .refl

theorem emits_handleVmIret (hexit : m.vmcb.exitcode = vmexitIret) :
    handleVmIret.Emits (Allowed m) m := by
  refine emits_then ?_ fun t ht => emits_skipIntercptCurInstr ?_
  · refine emits_read_then (Exec.emits_when.mpr fun _ => ?_)
    simp only [Exec.liftM_eq_probe]
    refine emits_probe_then (looks_getCurThreadid.allowed .refl) fun tid htid =>
      emits_read_then ?_
    split
    · exact Exec.emits_pure
    · next info hinfo =>
      exact emits_then (emits_syscallIret hexit htid hinfo) fun _ _ => Exec.emits_modify
  · obtain ⟨fmap, syscallmap, -, rfl⟩ := handleReturn_spec ht
    rfl

/-! ## Exceptions, task switches and commands -/

theorem looks_printVmcbState : Looks printVmcbState t :=
  looks_read.bind fun _ _ => (looks_outf rfl).bind fun _ _ => (looks_outf rfl).bind fun _ _ =>
    (looks_outf rfl).bind fun _ _ => (looks_outf rfl).bind fun _ _ => (looks_outf rfl).bind
      fun _ _ => (looks_outf rfl).bind fun _ _ => (looks_outf rfl).bind fun _ _ =>
        (looks_outf rfl).bind fun _ _ => looks_outf rfl

theorem looks_printPageErrorcode {errcode : BitVec 64} : Looks (printPageErrorcode errcode) t :=
  (looks_outf rfl).bind fun _ _ => (looks_outf rfl).bind fun _ _ => (looks_outf rfl).bind
    fun _ _ => (looks_outfWhen rfl).bind fun _ _ => looks_outfWhen rfl

theorem emits_injectException : injectException.Emits (Allowed m) t :=
  emits_then Exec.emits_modify fun _ _ => emits_read_then (emits_outf rfl)

theorem emits_handleDb : handleDb.Emits (Allowed m) m := by
  refine emits_read_then (Exec.emits_when.mpr fun _ => ?_)
  refine emits_then (emits_vmEnableIntercept rfl) fun t₁ h₁ =>
    emits_then Exec.emits_modify fun t₂ h₂ =>
      Exec.emits_when.mpr fun _ => emits_vmDisableIntercept ?_
  obtain ⟨-, hvmcb, -⟩ := vmEnableIntercept_spec h₁
  rw [← returns_modifyVm.mp h₂]
  change t₁.vmcb.cr3 = m.vmcb.cr3
  rw [hvmcb]
  rfl

theorem emits_handleVmException : handleVmException.Emits (Allowed m) m := by
  simp only [handleVmException, Exec.liftM_eq_probe]
  refine emits_read_then ?_
  simp only [id]
  split
  · exact emits_probe_then (looks_printVmcbState.allowed .refl) fun _ _ =>
      emits_probe_then (emits_outf rfl) fun _ _ => emits_injectException
  · split
    · exact emits_probe_then (looks_printVmcbState.allowed .refl) fun _ _ => Exec.emits_modify
    · split
      · exact emits_handleDb
      · split
        · split
          · exact emits_probe_then (emits_outf rfl) fun _ _ => emits_skipIntercptCurInstr rfl
          · exact emits_probe_then (looks_printPageErrorcode.allowed .refl) fun _ _ =>
              emits_then Exec.emits_modify fun _ _ => emits_injectException
        · exact emits_injectException

theorem emits_handlePopf : handlePopf.Emits (Allowed m) m := by
  simp only [handlePopf, Exec.liftM_eq_probe, vmIsProcessTracked, if_true]
  refine emits_probe_then (looks_getCurProcessName.allowed .refl) fun _ _ =>
    emits_then Exec.emits_modify fun t ht => emits_read_then ?_
  rw [← returns_modifyVmcb.mp ht]
  exact emits_then (emits_vmEnableIntercept rfl) fun _ _ => Exec.emits_modify

theorem emits_userEnableIntercept {flags : BitVec 32} (hs : Sees m t) :
    (userEnableIntercept flags).Emits (Allowed m) t := by
  simp only [userEnableIntercept, Exec.liftM_eq_probe]
  refine emits_then (Exec.emits_when.mpr fun _ => ?_) fun _ _ => Exec.emits_modify
  refine emits_probe_then (emits_outf rfl) fun _ _ => emits_then Exec.emits_modify fun t' ht => ?_
  have hs' : Sees m t' := by
    rw [← returns_modifyVmcb.mp ht]
    exact ⟨hs.space, hs.fmap⟩
  refine emits_probe_then (looks_regDs.allowed hs') fun pname _ => emits_read_then ?_
  exact Exec.emits_when.mpr fun hnot => absurd rfl hnot

theorem emits_userDisableIntercept {flags : BitVec 32} (hs : Sees m t) :
    (userDisableIntercept flags).Emits (Allowed m) t := by
  simp only [userDisableIntercept, Exec.liftM_eq_probe]
  refine emits_then (Exec.emits_when.mpr fun _ => ?_) fun _ _ => Exec.emits_modify
  refine emits_probe_then (emits_outf rfl) fun _ _ =>
    emits_probe_then (looks_regDs.allowed hs) fun pname hp =>
      emits_probe_then ((looks_outf_str (translated_regDs hp) rfl).allowed hs) fun _ _ =>
        emits_then (emits_probe_then (Looks.allowed ?_ hs) fun _ _ => Exec.emits_modify)
          fun _ _ => emits_read_then (Exec.emits_when.mpr fun _ => Exec.emits_modify)
  refine looks_read.bind fun tracked _ => Probe.emits_log.mpr fun e he => ?_
  obtain ⟨name, -, rfl⟩ := List.mem_map.mp he
  exact translated_regDs hp

theorem emits_handleVmVmmcall : handleVmVmmcall.Emits (Allowed m) m := by
  simp only [handleVmVmmcall, Exec.liftM_eq_probe]
  refine emits_then Exec.emits_modify fun t ht => emits_read_then ?_
  have hs : Sees m t := by
    rw [← returns_modifyVmcb.mp ht]
    exact ⟨rfl, rfl⟩
  refine emits_probe_then (emits_outf rfl) fun _ _ => emits_probe_then (emits_outf rfl) fun _ _ =>
    emits_probe_then (emits_outf rfl) fun _ _ => emits_probe_then (emits_outf rfl) fun _ _ => ?_
  split
  · exact emits_userEnableIntercept hs
  · split
    · exact emits_userDisableIntercept hs
    · exact Exec.emits_pure

theorem emits_handleVmWrmsr : handleVmWrmsr.Emits (Allowed m) m := by
  simp only [handleVmWrmsr, Exec.liftM_eq_probe]
  refine emits_read_then ?_
  split
  · exact emits_then Exec.emits_modify fun _ _ => Exec.emits_modify
  · exact emits_outf rfl

/-- Whatever the exit, whether it completes or not. -/
theorem handleVmexit_emits : handleVmexit.Emits (Allowed m) m := by
  simp only [handleVmexit, Exec.liftM_eq_probe]
  refine emits_read_then (emits_probe_then (emits_outf rfl) fun _ _ =>
    emits_probe_then (looks_printVmcbState.allowed .refl) fun _ _ => ?_)
  split
  · exact Exec.emits_when.mpr fun _ => emits_handleVmWrmsr
  · split
    · exact emits_handleVmException
    · split
      · next hexit => exact emits_handleVmSwint hexit
      · split
        · simp only [handleVmNpf, Exec.liftM_eq_probe]
          exact emits_read_then (emits_probe_then (looks_printPageErrorcode.allowed .refl)
            fun _ _ => looks_fault.allowed .refl)
        · split
          · exact emits_handleVmVmmcall
          · split
            · next hexit => exact emits_handleVmIret hexit
            · split
              · exact emits_then Exec.emits_modify fun t ht => by
                  rw [← returns_modifyVmcb.mp ht]
                  exact emits_skipIntercptCurInstr rfl
              · split
                · exact emits_handlePopf
                · exact Exec.emits_pure

end

end Mavmm
