import NvmeDisk.Model.Driver

/-! Bringing a controller up (`nvme-bsp.h`): `nvme_init_sq` and `nvme_init_cq` with their ring
    allocations, `nvme_admin_identify`, `nvme_probe_ns`, `nvme_create_io_queues`,
    `nvme_controller_enable` and `nvme_controller_setup`. Every read of a device register or of a
    buffer the device fills is an action of its own: the device may change it at any time. -/

namespace Nvme
open Bytes BlockDev Resume

/-- `sizeof(struct nvme_ctrl)` and `sizeof(struct nvme_namespace)` on the 32-bit target. -/
abbrev sizeofCtrl : Nat := 88
abbrev sizeofNamespace : Nat := 28

/-- A value of the world that is put down as used. -/
def getUsed (f : Nat → Used) (g : World → Nat) : Drv Nat := .act fun w => (g w, w.use (f (g w)))

/-! ### Memory -/

def World.setHeap (w : World) (h : Mheap.Heap Site) : World := w.setSys { w.sys with heap := h }

@[simp] theorem setHeap_store (w : World) (h : Mheap.Heap Site) : (w.setHeap h).store = w.store := rfl

/-- `posix_memalign` to a page and `memset` to zero; 0 when out of memory. -/
def zallocPageAligned (site : Site) (size : Nat) : Drv Nat :=
  .act fun w =>
    let r := w.sys.heap.alloc nvmePageSize size site
    let w := (w.setHeap r.2).use (.alloc site r.1)
    (r.1, if r.1 = 0 then w else w.setMem (fill w.store.mem r.1 size fun _ => 0))

def malloc (site : Site) (size : Nat) : Drv Nat :=
  .act fun w =>
    let r := w.sys.heap.alloc 4 size site
    (r.1, (w.setHeap r.2).use (.alloc site r.1))

def World.free (w : World) (a : Nat) : World :=
  if a = 0 then w else (w.setHeap (w.sys.heap.free a)).note (.freed a)

def free (a : Nat) : Drv Unit := .modify (·.free a)

/-! ### Queues -/

def World.setCqCommon (w : World) (i : QId) (qIdx length : Nat) : World :=
  w.setQ i { w.q i with
    cq := { (w.q i).cq with common := nvmeInitQueueCommon w.sys.doorbellStride qIdx length } }

def World.setCqe (w : World) (i : QId) (cqe : Nat) : World :=
  w.setQ i { w.q i with cq := { (w.q i).cq with cqe := cqe } }

def World.setSqCommon (w : World) (i : QId) (qIdx length : Nat) : World :=
  w.setQ i { w.q i with
    sq := { (w.q i).sq with common := nvmeInitQueueCommon w.sys.doorbellStride qIdx length } }

def World.setSqe (w : World) (i : QId) (sqe : Nat) : World :=
  w.setQ i { w.q i with sq := { (w.q i).sq with sqe := sqe } }

def nvmeInitSq (i : QId) (qIdx length : Nat) : Drv Int := do
  Prog.modify (·.setSqCommon i qIdx length)
  let sqe ← zallocPageAligned (.sqRing i) (sizeofSqe * length)
  Prog.modify (·.setSqe i sqe)
  if sqe = 0 then
    warn .noalloc
    return -1
  else
    Prog.modify fun w => w.setQ i (initSq (w.q i) w.sys.doorbellStride qIdx length sqe)
    return 0

def nvmeInitCq (i : QId) (qIdx length : Nat) : Drv Int := do
  Prog.modify (·.setCqCommon i qIdx length)
  let cqe ← zallocPageAligned (.cqRing i) (sizeofCqe * length)
  Prog.modify (·.setCqe i cqe)
  if cqe = 0 then
    warn .noalloc
    return -1
  else
    Prog.modify fun w => w.setQ i (initCq (w.q i) w.sys.doorbellStride qIdx length cqe)
    return 0

def nvmeDestroyCq (i : QId) : Drv Unit := do
  let cqe ← .get fun w => (w.q i).cq.cqe
  free cqe
  Prog.modify (·.setCqe i 0)

def nvmeDestroySq (i : QId) : Drv Unit := do
  let sqe ← .get fun w => (w.q i).sq.sqe
  free sqe
  Prog.modify (·.setSqe i 0)

/-! ### Identify -/

/-- The address of the Identify buffer, 0 if something failed. -/
def nvmeAdminIdentify (cns nsid : Nat) : Drv Nat := do
  let identifyBuf ← zallocPageAligned .identify 4096
  if identifyBuf = 0 then
    warn .internalerror
    return 0
  else
    match ← getNextSqe .admin nvmeSqeOpcAdminIdentify 0 identifyBuf 0 with
    | none =>
      warn .internalerror
      free identifyBuf
      return 0
    | some slot =>
      fillIn .admin (some slot) nsid cns 0 0
      commitSqe .admin
      let cqe ← nvmeWait .admin
      if nvmeIsCqeSuccess cqe then return identifyBuf
      else
        free identifyBuf
        return 0

def nvmeAdminIdentifyCtrl : Drv Nat := nvmeAdminIdentify nvmeAdminIdentifyCnsIdCtrl 0

def nvmeAdminIdentifyNs (nsId : Nat) : Drv Nat := nvmeAdminIdentify nvmeAdminIdentifyCnsIdNs nsId

/-- A field of the Identify Namespace data at `id`. -/
def idNs {α : Type} (id : Nat) (field : NvmeIdentifyNs → α) : Drv α :=
  .get fun w => field (identifyNsAt w.store.mem id)

/-- `lbads` and `ms` of entry `fmt` of the LBA format table at `id`. -/
def idLbads (id fmt : Nat) : Drv Nat :=
  getUsed (.lbads fmt) fun w => ((identifyNsAt w.store.mem id).lbaf fmt).lbads

def idMs (id fmt : Nat) : Drv Nat :=
  getUsed (.ms fmt) fun w => ((identifyNsAt w.store.mem id).lbaf fmt).ms

/-- `1U << n`; the target takes the shift count modulo 32. -/
def shl1 (n : Nat) : Nat := u32 (1 <<< (n % 32))

theorem shl1_eq (n : Nat) : shl1 n = 2 ^ (n % 32) := by
  have hk : n % 32 < 32 := Nat.mod_lt _ (by decide)
  rw [shl1, Nat.one_shiftLeft, u32]
  exact Nat.mod_eq_of_lt (Nat.pow_lt_pow_right (by decide) hk : 2 ^ (n % 32) < 2 ^ 32)

/-- Blocks per command that MDTS allows, unlimited (all ones) if it is 0. -/
def maxReqSize (mdts blockSize : Nat) : Nat :=
  if mdts ≠ 0 then u32 (shl1 mdts * nvmePageSize) / blockSize else 4294967295

/-- `nvme_dma_buffer`, allocated on first use; 0 if that fails. -/
def ensureDmaBuffer : Drv Nat := do
  let dma ← dmaBuffer
  if dma ≠ 0 then return dma
  else
    let dma ← zallocPageAligned .dma nvmePageSize
    Prog.modify fun w => w.setSys { w.sys with nvmeDmaBuffer := dma }
    if dma = 0 then warn .noalloc
    return dma

def World.setNs (w : World) (rec : Nat) (ns : NvmeNamespace) : World :=
  w.setSys { w.sys with nsRec := Function.update w.sys.nsRec rec ns }

/-- Allocate the record `ns` and fill it in from the Identify data at `id`. -/
def recordNs (id nsId mdts currentLbaFormat : Nat) : Drv Unit := do
  let rec ← malloc .ns sizeofNamespace
  Prog.modify fun w => w.setSys { w.sys with ns := rec }
  if rec = 0 then warn .noalloc
  else
    let lbaCount ← idNs id (·.nsze)
    let lbads ← idLbads id currentLbaFormat
    let ms ← idMs id currentLbaFormat
    let blockSize := shl1 lbads
    if nvmePageSize < blockSize then
      Prog.modify (·.setNs rec ⟨nsId, lbaCount, blockSize, ms, 0⟩)
      warn .internalerror
      free rec
    else
      Prog.modify fun w =>
        ((w.setNs rec ⟨nsId, lbaCount, blockSize, ms, maxReqSize mdts blockSize⟩).note
          (.accepted nsId rec)).use (.divisor blockSize)

/-- The checks on the Identify data at `id`, and the record if they pass. -/
def probeIdentified (id nsId mdts : Nat) : Drv Unit := do
  let currentLbaFormat ← idNs id (·.flbas &&& 0xF)
  let nlbaf ← idNs id (·.nlbaf)
  if nlbaf < currentLbaFormat then return ()
  else
    let nsze ← idNs id (·.nsze)
    if nsze = 0 then return ()
    else
      let dma ← ensureDmaBuffer
      if dma = 0 then return () else recordNs id nsId mdts currentLbaFormat

/-- `free_buffer` is reached on every path. -/
def nvmeProbeNs (nsIdx mdts : Nat) : Drv Unit := do
  let nsId := u32 (nsIdx + 1)
  let id ← nvmeAdminIdentifyNs nsId
  if id = 0 then return ()
  else
    probeIdentified id nsId mdts
    free id

/-! ### I/O queues -/

/-- Queue length for the create commands, out of MQES. -/
def ioQueueLength (cap : Nat) : Nat :=
  let length := 1 + cap % 65536
  if nvmePageSize / sizeofCqe < length then nvmePageSize / sizeofCqe else length

def nvmeCreateIoCq (qIdx : Nat) : Drv Int := do
  let cap ← .get (·.reg.cap)
  let rc ← nvmeInitCq .io qIdx (ioQueueLength cap)
  if rc ≠ 0 then return -1
  else
    let cq ← .get fun w => (w.q .io).cq
    match ← getNextSqe .admin nvmeSqeOpcAdminCreateIoCq 0 cq.cqe 0 with
    | none =>
      nvmeDestroyCq .io
      return -1
    | some slot =>
      fillIn .admin (some slot) 0 (u32 (cq.common.mask <<< 16 ||| qIdx >>> 1))
        1 /- physically contiguous -/ 0
      commitSqe .admin
      let cqe ← nvmeWait .admin
      if nvmeIsCqeSuccess cqe then return 0
      else
        nvmeDestroyCq .io
        return -1

def nvmeCreateIoSq (qIdx : Nat) : Drv Int := do
  let cap ← .get (·.reg.cap)
  let rc ← nvmeInitSq .io qIdx (ioQueueLength cap)
  if rc ≠ 0 then return -1
  else
    let sq ← .get fun w => (w.q .io).sq
    match ← getNextSqe .admin nvmeSqeOpcAdminCreateIoSq 0 sq.sqe 0 with
    | none =>
      nvmeDestroySq .io
      return -1
    | some slot =>
      fillIn .admin (some slot) 0 (u32 (sq.common.mask <<< 16 ||| qIdx >>> 1))
        ((qIdx >>> 1) <<< 16 ||| 1 /- contiguous -/) 0
      commitSqe .admin
      let cqe ← nvmeWait .admin
      if nvmeIsCqeSuccess cqe then return 0
      else
        nvmeDestroySq .io
        return -1

def nvmeCreateIoQueues : Drv Int := do
  if (← nvmeCreateIoCq 3) ≠ 0 then return -1
  else
    if (← nvmeCreateIoSq 2) ≠ 0 then
      nvmeDestroyCq .io
      return -1
    else return 0

/-! ### The controller -/

def World.setReg (w : World) (r : NvmeReg) : World := { w with reg := r }

def World.writeCc (w : World) (v : Nat) : World := (w.setReg { w.reg with cc := v }).note (.writeCc v)

/-- The polls of `nvme_wait_csts_rdy` that are left. -/
def cstsLoop (rdy : Nat) : Nat → Drv Int
  | 0 => do
    warn .timeout
    return -1
  | maxTo + 1 => do
    let csts ← getUsed .csts (·.reg.csts)
    if rdy = csts &&& nvmeCstsRdy then return 0
    else if csts &&& nvmeCstsFatal ≠ 0 then return -1
    else cstsLoop rdy maxTo

def nvmeWaitCstsRdy (rdy : Nat) : Drv Int := do
  let cap ← .get (·.reg.cap)
  cstsLoop rdy (500 * ((cap >>> 24) &&& 0xFF))

/-- Probe `n` namespaces from index `nsIdx` on. -/
def probeLoop (mdts : Nat) : Nat → Nat → Drv Unit
  | 0, _ => return ()
  | n + 1, nsIdx => do
    nvmeProbeNs nsIdx mdts
    probeLoop mdts n (nsIdx + 1)

/-- Label `err_destroy_admin_sq`, which falls through to `err_destroy_admin_cq`. -/
def destroyAdminQueues : Drv Int := do
  nvmeDestroySq .admin
  nvmeDestroyCq .admin
  return -1

/-- Identify the controller, create the I/O queues and probe the namespaces. -/
def enableIdentified : Drv Int := do
  let identify ← nvmeAdminIdentifyCtrl
  if identify = 0 then destroyAdminQueues
  else
    let nn ← getUsed .nn fun w => (identifyCtrlAt w.store.mem identify).nn
    Prog.modify fun w => w.setSys { w.sys with nsCount := nn }
    let mdts ← .get fun w => (identifyCtrlAt w.store.mem identify).mdts
    free identify
    if nn = 0 then destroyAdminQueues
    else
      if (← nvmeCreateIoQueues) ≠ 0 then destroyAdminQueues
      else
        probeLoop mdts nn 0
        return 0

def nvmeControllerEnable : Drv Int := do
  Prog.modify (·.writeCc 0)
  if (← nvmeWaitCstsRdy 0) ≠ 0 then return -1
  else
    let cap ← .get (·.reg.cap)
    Prog.modify fun w =>
      w.setSys { w.sys with doorbellStride := u32 (4 <<< ((cap >>> 32) &&& 0xF)) }
    if (← nvmeInitCq .admin 1 (nvmePageSize / sizeofCqe)) ≠ 0 then return -1
    else
      if (← nvmeInitSq .admin 0 (nvmePageSize / sizeofSqe)) ≠ 0 then
        nvmeDestroyCq .admin
        return -1
      else
        Prog.modify fun w => w.setReg { w.reg with
          aqa := (w.q .admin).cq.common.mask <<< 16 ||| (w.q .admin).sq.common.mask }
        Prog.modify fun w =>
          (w.setReg { w.reg with asq := (w.q .admin).sq.sqe }).note (.writeAsq (w.q .admin).sq.sqe)
        Prog.modify fun w =>
          (w.setReg { w.reg with acq := (w.q .admin).cq.cqe }).note (.writeAcq (w.q .admin).cq.cqe)
        Prog.modify
          (·.writeCc (nvmeCcEn ||| nvmeCqeSizeLog <<< 20 ||| nvmeSqeSizeLog <<< 16 /- IOSQES -/))
        if (← nvmeWaitCstsRdy 1) ≠ 0 then destroyAdminQueues
        else enableIdentified

/-- `memset(ctrl, 0, sizeof(*ctrl))`: the record's queues and scalars. -/
def World.clearCtrl (w : World) : World :=
  { w with
    q := fun i => { w.q i with sq := ⟨⟨0, 0⟩, 0, 0, 0⟩, cq := ⟨⟨0, 0⟩, 0, 0, false⟩ }
    sys := { w.sys with doorbellStride := 0, nsCount := 0 } }

/-- The result is the return value of `nvme_controller_enable`, `none` where it is not reached (the C
    function returns nothing). -/
def nvmeControllerSetup (nvmeBase : Nat) : Drv (Option Int) := do
  if nvmeBase = 0 then return none
  else
    let cap ← .get (·.reg.cap)
    if cap &&& nvmeCapCssNvme = 0 then return none
    else
      let ctrl ← zallocPageAligned .ctrl sizeofCtrl
      if ctrl = 0 then
        warn .noalloc
        return none
      else
        Prog.modify (·.clearCtrl)
        let rc ← nvmeControllerEnable
        if rc ≠ 0 then
          free ctrl
          return some rc
        else return some rc

end Nvme
