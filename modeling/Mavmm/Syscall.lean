import Mavmm.SyscallEnt
import Mavmm.Vm

/-!
# System calls of the guest (intercept.c)

What the monitor does at `int 0x80`: it finds the current thread through the
guest's kernel stack, prints the arguments of the call, and records the thread
when it wants to see the call return.  The handlers that record are
`sys_read`, `sys_open` and `sys_recvfrom`; the others only look.

An address that does not translate is -1.  Not every handler looks at it before
it follows the pointer.
-/

namespace Mavmm

/-! ## The current process -/

/-- `get_cur_process_taskstruct`. -/
def getCurProcessTaskstruct : Look Addr := do
  let c ← Probe.read fun m => m.vmcb
  let threadInfoGl := c.rsp &&& 0xffffe000#64
  let threadInfoHp ← translate c.ssSel threadInfoGl
  let taskStructGl ← loadAt Mem.load64 threadInfoHp 0
  let taskStructHp ← translate c.dsSel taskStructGl
  outfWhen (taskStructHp = 0#64) " task_struct_gl = %x, ds = %x, ss = %x"
    [.word taskStructGl, .int (c.dsSel.setWidth 32), .int (c.ssSel.setWidth 32)]
  return taskStructHp

/-- `get_cur_process_usermode_taskstruct`. -/
def getCurProcessUsermodeTaskstruct : Look Addr := do
  let c ← Probe.read fun m => m.vmcb
  let espHp ← translate c.trSel 0x04#64
  if espHp = -1#64 then pure (-1#64) else
    let esp ← loadAt Mem.load64 espHp 0
    let ssHp ← translate c.trSel 0x08#64
    if ssHp = -1#64 then pure (-1#64) else
      let ss ← loadAt Mem.load16 ssHp 0
      let threadInfoGl := esp &&& 0xffffe000#64
      let threadInfoHp ← translate ss threadInfoGl
      if threadInfoHp = -1#64 then pure (-1#64) else
        let taskStructGl ← loadAt Mem.load64 threadInfoHp 0
        translate c.dsSel taskStructGl

/-- Kernel mode is mode 0. -/
def getTaskStruct (mode : Nat) : Look Addr :=
  if mode = 0 then getCurProcessTaskstruct else getCurProcessUsermodeTaskstruct

/-- `get_cur_process_name`. -/
def getCurProcessName (mode : Nat) : Look Addr := do
  let taskStructHp ← getTaskStruct mode
  outfWhen (taskStructHp ≠ -1#64) "+++++ process name: %s\n" [.str taskStructHp 0x18c]
  return taskStructHp + 0x18c#64

/-- `get_cur_threadid`; the id is read before the address is looked at. -/
def getCurThreadid (mode : Nat) : Look (BitVec 32) := do
  let taskStructHp ← getTaskStruct mode
  let tid ← loadAt Mem.load32 taskStructHp 0xa8
  return if taskStructHp ≠ -1#64 then tid else 0#32

/-! ## Arguments -/

def reg (r : GuestRegs → BitVec 64) : Look (BitVec 64) := Probe.read fun m => r m.regs

/-- `glogic_2_hphysic (vm, vm->vmcb->ds.sel, offset)`. -/
def translateDs (offset : BitVec 64) : Look Addr := do
  let sel ← Probe.read fun m => m.vmcb.dsSel
  translate sel offset

def regDs (r : GuestRegs → BitVec 64) : Look Addr := do translateDs (← reg r)

/-- An `int` taken from a register. -/
def intArg (w : BitVec 64) : OutArg := .int (w.setWidth 32)

/-- A register masked to 16 bits, as an `int`. -/
def maskArg (w : BitVec 64) : OutArg := .int ((w &&& 0xffff#64).setWidth 32)

def outReg (fmt : String) (arg : BitVec 64 → OutArg) (r : GuestRegs → BitVec 64) : Look Unit := do
  outf fmt [arg (← reg r)]

/-- The name of the file that a register describes, or its number. -/
def outFname (fdFmt nameFmt : String) (r : GuestRegs → BitVec 64) : Look Unit := do
  let fd ← reg r
  match ← vmGetFnameFromId (fd.setWidth 32) with
  | none => outf fdFmt [.word fd]
  | some fname => outf nameFmt [.name fname]

/-- A string argument, printed unless its address is `bad`. -/
def outString (bad : Addr) (fmt : String) (r : GuestRegs → BitVec 64) : Look Unit := do
  let p ← regDs r
  outfWhen (p ≠ bad) fmt [.str p 0]

/-- The bytes at `p` from the `i`-th on, `n` of them. -/
def outBytes (p : Addr) : (n i : Nat) → Look Unit
  | 0, _ => pure ()
  | n + 1, i => do
    let b ← loadAt Mem.load8 p i
    outf "%x " [.int (b.setWidth 32)]
    outBytes p n (i + 1)

/-! ## Files -/

def sysUselib : Look Unit := outString (-1#64) "library used: = %s" GuestRegs.rbx

def sysOpen : Handler Unit := do
  let filename ← regDs GuestRegs.rbx
  Exec.when (filename ≠ -1#64) do
    Exec.probe do
      let flags ← reg GuestRegs.rcx
      let mode ← reg GuestRegs.rdx
      outf "filename: %s, flags: %x, mode: %x" [.str filename 0, maskArg flags, maskArg mode]
    let tid ← getCurThreadid 3
    vmAddWaitingThread tid (.opened filename)

/-- `sys_open_iret`. -/
def sysOpenIret (arg : BitVec 64) : Handler Unit := do
  let m ← Exec.probe do
    Probe.log [.deref arg (.bytes 0 vmMaxFilename)]
    Probe.read id
  vmAddFileid2nameMap (m.vmcb.rax.setWidth 32) fun k => m.mem (arg + BitVec.ofNat 64 k)

def sysClose : Look Unit := outFname "fd: %x" "filename: %s" GuestRegs.rbx

/-- The processes that `waitpid` waits for. -/
def outWaiting (arg1 : BitVec 32) : Look Unit :=
  if arg1.slt (-1#32) then
    outf "Waiting for any child process whose process group ID is %x, " [.int (-arg1)]
  else if arg1 = -1#32 then outf "Waiting for any child process, " []
  else if arg1 = 0#32 then
    outf "Waiting for child process whose process group ID is equal to that of the calling process, "
      []
  else outf "Waiting for child process whose process ID is %x, " [.int arg1]

def outStatus (arg2 : Addr) : Look Unit :=
  if arg2 ≠ 0#64 then do
    let status ← loadAt Mem.load32 arg2 0
    outf "Status: %x, " [.int status]
  else outf "Status: NULL, " []

def sysWaitpid : Look Unit := do
  let arg1 ← reg GuestRegs.rbx
  outWaiting (arg1.setWidth 32)
  let arg2 ← regDs GuestRegs.rcx
  outStatus arg2
  outReg "Option: %x" intArg GuestRegs.rdx

def sysLink : Look Unit := do
  outString 0#64 "Old Filename: %s, " GuestRegs.rbx
  outString 0#64 "New Filename: %s" GuestRegs.rcx

def sysUnlink : Look Unit := outString 0#64 "Filename: %s" GuestRegs.rbx

def sysMmap : Look Unit := do
  outReg "Starting Addr: %x, " .word GuestRegs.rbx
  outReg "Length: %x, " intArg GuestRegs.rcx
  outReg "MEM Protection: %x, " intArg GuestRegs.rdx
  outReg "Flag: %x, " intArg GuestRegs.rsi
  outFname "fd: %x, " "filename: %s, " GuestRegs.rdi
  outReg "Offset: %x" intArg GuestRegs.rbp

def sysMunmap : Look Unit := do
  outReg "Starting Addr: %x, " .word GuestRegs.rbx
  outReg "Length: %x" intArg GuestRegs.rcx

def outMode (arg2 : BitVec 32) : Look Unit :=
  if arg2 = 4#32 then outf "Mode: Readable" []
  else if arg2 = 2#32 then outf "Mode: Writable" []
  else if arg2 = 1#32 then outf "Mode: Executable" []
  else outfWhen (arg2 = 0#32) "Mode: File exists" []

def sysAccess : Look Unit := do
  outString 0#64 "Filename to check: %s, " GuestRegs.rbx
  let arg2 ← reg GuestRegs.rcx
  outMode (arg2.setWidth 32)

def sysLchown : Look Unit := do
  outString 0#64 "Filename: %s, " GuestRegs.rbx
  outReg "Owner ID: %x, " intArg GuestRegs.rcx
  outReg "Group ID: %x" intArg GuestRegs.rdx

def sysLseek : Look Unit := do
  outFname "fd: %x, " "filename: %s, " GuestRegs.rbx
  outReg "Offset: %x, " intArg GuestRegs.rcx
  outReg "whence: %x" intArg GuestRegs.rdx

def sysRead : Handler Unit := do
  Exec.probe do
    outFname "fd: %x, " "filename: %s, " GuestRegs.rbx
    outReg "buffer: %x, " .word GuestRegs.rcx
    outReg "size: %x" maskArg GuestRegs.rdx
  let tid ← getCurThreadid 3
  let arg ← reg GuestRegs.rcx
  vmAddWaitingThread tid (.read arg)

/-- `sys_read_iret`; a negative result counts as a size. -/
def sysReadIret (arg : BitVec 64) : Look Unit := do
  let rax ← Probe.read fun m => m.vmcb.rax
  outf "sys_read return value: %x\n" [.word rax]
  if rax ≠ 0#64 then
    let bufferHp ← translateDs arg
    if bufferHp ≠ -1#64 then
      outf "first 10 bytes: " []
      outBytes bufferHp (min 10 rax.toNat) 0
      outf "\n" []

def sysWrite : Look Unit := do
  outFname "fd: %x, " "filename: %s, " GuestRegs.rbx
  outReg "size: %x, " .word GuestRegs.rdx
  outString (-1#64) "content written [%s]" GuestRegs.rcx

def sysIoctl : Look Unit := do
  outFname "fd: %x, " "filename: %s, " GuestRegs.rbx
  outReg "Device-dependent request code: %x, " intArg GuestRegs.rcx
  outReg "Memory Addr: %x" .word GuestRegs.rdx

def sysFstat : Look Unit := do
  outFname "fd: %x, " "filename: %s, " GuestRegs.rbx
  outReg "Addr to Stat Structure: %x" .word GuestRegs.rcx

/-! ## Network -/

/-- The word at an offset from the argument block that `g_rcx` points to. -/
def socketArg (off : BitVec 64) : Look (BitVec 64) := do
  let p ← translateDs ((← reg GuestRegs.rcx) + off)
  loadAt Mem.load64 p 0

/-- `arg[i]`; the words overlap, as the code reads eight bytes every four. -/
def socketArgs : (n i : Nat) → Look (List (BitVec 64))
  | 0, _ => pure []
  | n + 1, i => do
    let a ← socketArg (BitVec.ofNat 64 (i * 4))
    return a :: (← socketArgs n (i + 1))

/-- The bytes of `sin_addr` from the `i`-th on, `n` of them. -/
def peerIp (peerInfoHp : Addr) : (n i : Nat) → Look (List Byte)
  | 0, _ => pure []
  | n + 1, i => do
    let b ← loadAt Mem.load8 peerInfoHp (8 + i)
    return b :: (← peerIp peerInfoHp n (i + 1))

/-- `sin_port`. -/
def peerPort (peerInfoHp : Addr) : Look (BitVec 16) := loadAt Mem.load16 peerInfoHp 2

/-- An unsigned field, promoted to `int`. -/
def fieldArg {n : Nat} (x : BitVec n) : OutArg := .int (x.setWidth 32)

/-- The size, the address of the peer and its port. -/
def outPeerPort (fmt : String) (size : BitVec 32) (peerInfoHp : Addr) : Look Unit := do
  let ip ← peerIp peerInfoHp 4 0
  let port ← peerPort peerInfoHp
  outf fmt (.int size :: ip.map fieldArg ++ [fieldArg port])

def bufsize (w : BitVec 64) : BitVec 32 := (w &&& 0xffff#64).setWidth 32

def sysRecvfrom : Handler Unit := do
  let bufferGl ← socketArg 4#64
  let peerInfoGl ← socketArg 16#64
  let size := bufsize (← socketArg 8#64)
  let peerInfoHp ← translateDs peerInfoGl
  outPeerPort "receving %x bytes from  %x.%x.%x.%x : %x  " size peerInfoHp
  let tid ← getCurThreadid 102
  vmAddWaitingThread tid (.recvfrom bufferGl size)

/-- `sys_recvfrom_iret`. -/
def sysRecvfromIret (arg : BitVec 64) (datasize : BitVec 32) : Look Unit := do
  let bufferHp ← translate 0#16 arg
  if bufferHp ≠ -1#64 then
    outBytes bufferHp datasize.toInt.toNat 0
    outf "\n" []

def sysSendto : Look Unit := do
  let arg ← socketArgs 6 0
  let size := bufsize (arg.getD 2 0#64)
  let peerInfoHp ← translateDs (arg.getD 4 0#64)
  let bufferHp ← translate 0#16 (arg.getD 1 0#64)
  if bufferHp ≠ -1#64 then
    outPeerPort "sending %x bytes to  %x.%x.%x.%x:%x " size peerInfoHp
    outBytes bufferHp size.toInt.toNat 0
    outf "\n" []

def sysSocket : Look Unit := do
  let arg ← socketArgs 6 0
  outf "sys_socket  family %x, type %x protocol %x"
    [.word (arg.getD 0 0#64), .word (arg.getD 1 0#64), .word (arg.getD 2 0#64)]

/-- The calls that print a descriptor, the address of the peer, and more. -/
def outPeer (fmt : String) (more : List (BitVec 64) → List (BitVec 64)) : Look Unit := do
  let arg ← socketArgs 6 0
  let peerInfoHp ← translateDs (arg.getD 1 0#64)
  let ip ← peerIp peerInfoHp 4 0
  outf fmt (.word (arg.getD 0 0#64) :: ip.map fieldArg ++ (more arg).map OutArg.word)

def sysBind : Look Unit :=
  outPeer "sys_bind fd %x peer's ip %x.%x.%x.%x addrlen %x" fun arg => [arg.getD 2 0#64]

def sysConnect : Look Unit :=
  outPeer "sys_connect fd %x peer's ip %x.%x.%x.%x addrlen %x" fun arg => [arg.getD 2 0#64]

def sysListen : Look Unit := do
  let arg ← socketArgs 6 0
  outf "listen  fd %x, backlog %x" [.word (arg.getD 0 0#64), .word (arg.getD 1 0#64)]

def sysAccept : Look Unit :=
  outPeer "sys_accept fd %x peer's ip %x.%x.%x.%x " fun _ => []

/-! The values of `call` (intercept.h). -/

def callSocket : BitVec 32 := 1#32
def callBind : BitVec 32 := 2#32
def callConnect : BitVec 32 := 3#32
def callListen : BitVec 32 := 4#32
def callAccept : BitVec 32 := 5#32
def callSendto : BitVec 32 := 11#32
def callRecvfrom : BitVec 32 := 12#32

def sysSocketcall : Handler Unit := do
  let call := (← Exec.probe (reg GuestRegs.rbx)).setWidth 32
  if call = callRecvfrom then sysRecvfrom
  else Exec.probe <|
    if call = callSocket then sysSocket
    else if call = callBind then sysBind
    else if call = callConnect then sysConnect
    else if call = callListen then sysListen
    else if call = callAccept then sysAccept
    else if call = callSendto then sysSendto
    else pure ()

/-! ## Programs -/

/-- The loop over a vector of strings; its index is an `int`. -/
def outVector (p : Addr) : (fuel i : Nat) → Look Unit
  | 0, _ => fault .undefinedBehaviour
  | fuel + 1, i => do
    let s ← loadAt Mem.load64 p (8 * i)
    if s ≠ 0#64 then
      let tempAddr ← translateDs s
      outfWhen (tempAddr ≠ -1#64) "%s" [.str tempAddr 0]
      let next ← loadAt Mem.load64 p (8 * (i + 1))
      outfWhen (next ≠ 0#64) ", " []
      outVector p fuel (i + 1)

def outVectorAt (p : Addr) : Look Unit := if p ≠ -1#64 then outVector p (2 ^ 31) 0 else pure ()

def sysExecve : Look Unit := do
  outString (-1#64) "Filename: %s " GuestRegs.rbx
  let arg2 ← regDs GuestRegs.rcx
  outfWhen (arg2 ≠ -1#64) "Arguments[" []
  outVectorAt arg2
  outf "], key=value pairs[" []
  let arg3 ← regDs GuestRegs.rdx
  outVectorAt arg3
  outf "]" []

/-! ## `int 0x80` -/

/-- The arguments of a call without a handler of its own. -/
def outArgs : List (BitVec 64) → Look Unit
  | [] => pure ()
  | arg :: rest => do
    outf "%x" [intArg arg]
    outfWhen (rest ≠ []) ", " []
    outArgs rest

/-- The calls whose handlers only look. -/
def sysLook (sysCallNo sysNargs : Nat) : Look Unit :=
  match sysCallNo with
  | 4 => sysWrite
  | 6 => sysClose
  | 7 => sysWaitpid
  | 9 => sysLink
  | 10 => sysUnlink
  | 11 => sysExecve
  | 16 => sysLchown
  | 19 => sysLseek
  | 33 => sysAccess
  | 54 => sysIoctl
  | 86 => sysUselib
  | 90 => sysMmap
  | 91 => sysMunmap
  | 108 => sysFstat
  | _ => do
    let r ← Probe.read fun m => m.regs
    outArgs ([r.rbx, r.rcx, r.rdx, r.rsi, r.rdi, r.rbp].take sysNargs)

/-! The numbers of the calls whose handlers record the thread (intercept.h). -/

def sysNrRead : Nat := 3
def sysNrOpen : Nat := 5
def sysNrSocketcall : Nat := 102

/-- The `switch` on the number of the call. -/
def sysDispatch (sysCallNo sysNargs : Nat) : Handler Unit :=
  if sysCallNo = sysNrRead then sysRead
  else if sysCallNo = sysNrOpen then sysOpen
  else if sysCallNo = sysNrSocketcall then sysSocketcall
  else Exec.probe (sysLook sysCallNo sysNargs)

/-- `__handle_syscall`. -/
def handleSyscall : Handler Unit := do
  let rax ← Exec.probe (Probe.read fun m => m.vmcb.rax)
  let sysCallNo := (rax.setWidth 32).toNat
  match syscalls[sysCallNo]? with
  | none => Exec.probe (fault .outOfBounds)
  | some entry =>
    outf ">> %s( " [.text entry.sysName]
    sysDispatch sysCallNo entry.sysNargs
    let waiting ← Exec.probe (Probe.read fun m => m.vm.syscallmap)
    Exec.when (waiting = []) do
      let tid ← getCurThreadid 3
      vmAddWaitingThread tid .other
    modifyVmcb fun c =>
      { c with
        rflags := c.rflags ||| x86RflagsTf
        general1Intercepts := c.general1Intercepts ||| intrcptIret }
    outf " )\n" []

end Mavmm
