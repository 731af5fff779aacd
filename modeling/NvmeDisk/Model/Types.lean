import NvmeDisk.Schemes.BlockDev
import NvmeDisk.Schemes.Heap

/-! The data of the driver: queue entries, queues, the controller record, namespaces and Identify
    data (`nvme-bsp.h`), block requests (`nvmedisk.h`), and the world the driver and the device
    share. Pointers are addresses with 0 for `NULL`; the fields of an unsigned C type hold values
    below its bound, and arithmetic that can leave the bound is reduced where the code stores it. -/

namespace Nvme
open Bytes BlockDev

/-! ### Integer conversions -/

def u16 (x : Nat) : Nat := x % 65536

def u32 (x : Nat) : Nat := x % 4294967296

def u64 (x : Nat) : Nat := x % 18446744073709551616

/-- The value of an `int` that was given the 32-bit pattern `x`. -/
def s32 (x : Nat) : Int := if x % 4294967296 < 2147483648 then x % 4294967296
  else (x % 4294967296 : Nat) - (4294967296 : Int)

/-! ### NVMe constants -/

abbrev nvmeCapCssNvme : Nat := 1 <<< 37
abbrev nvmeCstsFatal : Nat := 2
abbrev nvmeCstsRdy : Nat := 1
abbrev nvmeCcEn : Nat := 1
abbrev nvmeSqeOpcAdminCreateIoSq : Nat := 1
abbrev nvmeSqeOpcAdminCreateIoCq : Nat := 5
abbrev nvmeSqeOpcAdminIdentify : Nat := 6
abbrev nvmeSqeOpcIoWrite : Nat := 1
abbrev nvmeSqeOpcIoRead : Nat := 2
abbrev nvmeAdminIdentifyCnsIdNs : Nat := 0
abbrev nvmeAdminIdentifyCnsIdCtrl : Nat := 1
abbrev nvmeCqeDw3P : Nat := 1 <<< 16
abbrev nvmePageSize : Nat := 4096
abbrev nvmeSqeSizeLog : Nat := 6
abbrev nvmeCqeSizeLog : Nat := 4
abbrev nvmeMaxPrplEntries : Nat := 15
/-- `sizeof(struct nvme_sqe)` and `sizeof(struct nvme_cqe)`. -/
abbrev sizeofSqe : Nat := 64
abbrev sizeofCqe : Nat := 16

/-! ### Queues -/

/-- Submission queue entry (the double words the driver sets; the others stay 0). -/
structure NvmeSqe where
  cdw0 : Nat
  nsid : Nat
  mptr : Nat
  dptrPrp1 : Nat
  dptrPrp2 : Nat
  dword10 : Nat
  dword11 : Nat
  dword12 : Nat
  deriving DecidableEq, Repr

/-- Opcode and command id: the two fields of command dword 0. -/
def NvmeSqe.opc (e : NvmeSqe) : Nat := e.cdw0 % 256

def NvmeSqe.cid (e : NvmeSqe) : Nat := e.cdw0 / 65536 % 65536

/-- Completion queue entry. -/
structure NvmeCqe where
  cdw0 : Nat
  res0 : Nat
  sqHead : Nat
  sqId : Nat
  cid : Nat
  status : Nat
  deriving DecidableEq, Repr

/-- `dword[3]` of the union: command id below, status above. -/
def NvmeCqe.dword3 (c : NvmeCqe) : Nat := c.cid ||| c.status <<< 16

/-- The phase tag: the lowest bit of the status field. -/
def NvmeCqe.phase (c : NvmeCqe) : Bool := c.status % 2 == 1

/-- The 15 status bits above the phase tag: status code, status code type, flags. -/
def NvmeCqe.sf (c : NvmeCqe) : Nat := c.status / 2

/-- The common part of every submission or completion queue. -/
structure NvmeQueue where
  dbl : Nat
  mask : Nat
  deriving DecidableEq, Repr

structure NvmeCq where
  common : NvmeQueue
  cqe : Nat
  head : Nat
  phase : Bool
  deriving DecidableEq, Repr

/-- Submission queue; its completion queue is the one of the same pair. -/
structure NvmeSq where
  common : NvmeQueue
  sqe : Nat
  head : Nat
  tail : Nat
  deriving DecidableEq, Repr

/-- The two queue pairs of the controller record. -/
inductive QId where | admin | io
  deriving DecidableEq, Repr

/-- A command the controller has fetched and not yet completed; `status` is set once executed. -/
structure Flight where
  sqe : NvmeSqe
  serial : Nat
  status : Option Nat
  deriving DecidableEq, Repr

/-- The controller's side of a queue pair: declared lengths, the doorbells last written, how many
    entries it has fetched, what it works on, and every completion it has posted. -/
structure CtlQueue where
  sqLen : Nat
  cqLen : Nat
  tail : Nat
  head : Nat
  taken : Nat
  flight : List Flight
  done : List NvmeCqe

/-- A queue pair: the driver's two structures, the two rings in memory, the controller's side. -/
structure QPair where
  sq : NvmeSq
  cq : NvmeCq
  sqes : Nat → NvmeSqe
  cqes : Nat → NvmeCqe
  ctl : CtlQueue

/-! ### Namespaces and Identify data -/

structure NvmeNamespace where
  nsId : Nat
  lbaCount : Nat
  blockSize : Nat
  metadataSize : Nat
  maxReqSize : Nat
  deriving DecidableEq, Repr

structure NvmeLbaFormat where
  ms : Nat
  lbads : Nat
  deriving DecidableEq, Repr

structure NvmeIdentifyCtrl where
  mdts : Nat
  nn : Nat
  deriving DecidableEq, Repr

structure NvmeIdentifyNs where
  nsze : Nat
  nlbaf : Nat
  flbas : Nat
  lbaf : Nat → NvmeLbaFormat

/-- `struct nvme_identify_ctrl` at `a`: `mdts` at offset 77, `nn` at 516. -/
def identifyCtrlAt (m : Mem) (a : Nat) : NvmeIdentifyCtrl where
  mdts := load m (a + 77) 1
  nn := load m (a + 516) 4

/-- `struct nvme_identify_ns` at `a`: `nsze` at 0, `nlbaf` at 25, `flbas` at 26, `lbaf` at 128. -/
def identifyNsAt (m : Mem) (a : Nat) : NvmeIdentifyNs where
  nsze := load m a 8
  nlbaf := load m (a + 25) 1
  flbas := load m (a + 26) 1
  lbaf k := ⟨load m (a + 128 + 4 * k) 2, load m (a + 128 + 4 * k + 2) 1⟩

/-! ### Block requests -/

inductive RtemsStatusCode where | successful | ioError | other (code : Nat)
  deriving DecidableEq, Repr

/-- The operation of a block request (`rtems_blkdev_request_op`). -/
inductive ReqOp where | read | write | other (code : Nat)
  deriving DecidableEq, Repr

/-- `rtems_blkdev_request`: its address, operation and scatter/gather buffers. -/
structure BlkdevRequest where
  id : Nat
  req : ReqOp
  bufs : List Buf
  deriving DecidableEq, Repr

/-- `struct nvmedisk`: the geometry registered for one disk. -/
structure Nvmedisk where
  blockSize : Nat
  blockNum : Nat
  deriving DecidableEq, Repr

/-! ### The world -/

/-- What the driver prints when something goes wrong. -/
inductive Warn where | timeout | noalloc | internalerror
  deriving DecidableEq, Repr

/-- Allocation sites of the driver. -/
inductive Site where | ctrl | cqRing (i : QId) | sqRing (i : QId) | identify | dma | ns | other
  deriving DecidableEq, Repr

/-- What can be observed of a run, for stating properties of it. -/
inductive Event where
  /-- doorbell write of a submission queue: the entry handed over, its slot and the value written -/
  | commit (i : QId) (slot : Nat) (e : NvmeSqe) (tail : Nat)
  /-- doorbell write of a completion queue: the value, and the entry polled just before it -/
  | consumed (i : QId) (head : Nat) (polled : NvmeCqe)
  /-- the completion entry `nvme_consume_cqe` returns -/
  | copied (i : QId) (c : NvmeCqe)
  /-- `nvme_wait` gave up -/
  | timeout (i : QId)
  /-- the controller touched memory or disk for the command of this serial -/
  | access (i : QId) (serial : Nat)
  /-- a transfer function handed control back to its caller -/
  | returned
  /-- `nvmedisk_read` or `nvmedisk_write` turns to this buffer -/
  | sg (b : Buf)
  | warn (w : Warn)
  /-- `rtems_blkdev_request_done` -/
  | done (req : Nat) (sc : RtemsStatusCode)
  /-- a namespace record is complete -/
  | accepted (nsId : Nat) (rec : Nat)
  /-- `free` of this address -/
  | freed (addr : Nat)
  /-- writes to the controller registers CC, ASQ and ACQ -/
  | writeCc (v : Nat)
  | writeAsq (addr : Nat)
  | writeAcq (addr : Nat)
  deriving DecidableEq, Repr

/-- What the driver goes by as it brings a controller up: the answers of the device and of the
    allocator, and what it divides by. -/
inductive Used where
  /-- a poll of CSTS -/
  | csts (v : Nat)
  /-- the completion entry `nvme_consume_cqe` returns -/
  | cqe (i : QId) (c : NvmeCqe)
  /-- an allocation, and the address it returns -/
  | alloc (site : Site) (addr : Nat)
  /-- the number of namespaces -/
  | nn (n : Nat)
  /-- fields of an entry of the LBA format table -/
  | lbads (fmt v : Nat)
  | ms (fmt v : Nat)
  | divisor (d : Nat)
  deriving DecidableEq, Repr

/-- The controller registers the driver touches. -/
structure NvmeReg where
  cap : Nat
  cc : Nat
  csts : Nat
  aqa : Nat
  asq : Nat
  acq : Nat

/-- The driver's globals, the scalar fields of the controller record, and the C library. -/
structure Sys where
  nvmeDmaBuffer : Nat
  ns : Nat
  nsRec : Nat → NvmeNamespace
  doorbellStride : Nat
  nsCount : Nat
  errno : Nat
  heap : Mheap.Heap Site

/-- The device: the namespace it serves and its Identify data. -/
structure Device where
  nsId : Nat
  blockSize : Nat
  lbaCount : Nat
  identify : (cns nsid : Nat) → Nat → UInt8

structure World where
  store : Store
  q : QId → QPair
  sys : Sys
  reg : NvmeReg
  dev : Device
  /-- newest first -/
  log : List Event
  used : List Used

/-- Abnormal ends: a store through a missing queue entry (undefined in C), or the fuel given to a
    block loop used up. -/
inductive Halt where | nullSqe | fuel
  deriving DecidableEq, Repr

namespace World

def note (w : World) (ev : Event) : World := { w with log := ev :: w.log }

def use (w : World) (x : Used) : World := { w with used := x :: w.used }

def setQ (w : World) (i : QId) (q : QPair) : World := { w with q := Function.update w.q i q }

def setMem (w : World) (m : Mem) : World := { w with store := { w.store with mem := m } }

def setSys (w : World) (s : Sys) : World := { w with sys := s }

variable (w : World) (i j : QId) (q : QPair) (ev : Event) (x : Used) (m : Mem) (s : Sys)

@[simp] theorem note_store : (w.note ev).store = w.store := rfl
@[simp] theorem note_q : (w.note ev).q = w.q := rfl
@[simp] theorem note_sys : (w.note ev).sys = w.sys := rfl
@[simp] theorem note_reg : (w.note ev).reg = w.reg := rfl
@[simp] theorem note_dev : (w.note ev).dev = w.dev := rfl
@[simp] theorem note_log : (w.note ev).log = ev :: w.log := rfl
@[simp] theorem note_used : (w.note ev).used = w.used := rfl
@[simp] theorem use_store : (w.use x).store = w.store := rfl
@[simp] theorem use_q : (w.use x).q = w.q := rfl
@[simp] theorem use_sys : (w.use x).sys = w.sys := rfl
@[simp] theorem use_reg : (w.use x).reg = w.reg := rfl
@[simp] theorem use_dev : (w.use x).dev = w.dev := rfl
@[simp] theorem use_log : (w.use x).log = w.log := rfl
@[simp] theorem use_used : (w.use x).used = x :: w.used := rfl
@[simp] theorem setQ_store : (w.setQ i q).store = w.store := rfl
@[simp] theorem setQ_sys : (w.setQ i q).sys = w.sys := rfl
@[simp] theorem setQ_reg : (w.setQ i q).reg = w.reg := rfl
@[simp] theorem setQ_dev : (w.setQ i q).dev = w.dev := rfl
@[simp] theorem setQ_log : (w.setQ i q).log = w.log := rfl
@[simp] theorem setQ_q_same : (w.setQ i q).q i = q := Function.update_self ..
@[simp] theorem setMem_disk : (w.setMem m).store.disk = w.store.disk := rfl
@[simp] theorem setMem_mem : (w.setMem m).store.mem = m := rfl
@[simp] theorem setMem_q : (w.setMem m).q = w.q := rfl
@[simp] theorem setMem_sys : (w.setMem m).sys = w.sys := rfl
@[simp] theorem setMem_dev : (w.setMem m).dev = w.dev := rfl
@[simp] theorem setMem_log : (w.setMem m).log = w.log := rfl
@[simp] theorem setSys_store : (w.setSys s).store = w.store := rfl
@[simp] theorem setSys_q : (w.setSys s).q = w.q := rfl
@[simp] theorem setSys_sys : (w.setSys s).sys = s := rfl
@[simp] theorem setSys_dev : (w.setSys s).dev = w.dev := rfl
@[simp] theorem setSys_log : (w.setSys s).log = w.log := rfl

theorem setQ_q_ne {i j : QId} (h : j ≠ i) : (w.setQ i q).q j = w.q j := Function.update_of_ne h ..

end World

end Nvme
