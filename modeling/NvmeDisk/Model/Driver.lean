import NvmeDisk.Model.Queue
import NvmeDisk.Schemes.Resume

/-! The transfer path: `nvme_consume_cqe` to `nvme_prpl_xfer` (`nvme-bsp.h`) and `nvmedisk_read`,
    `nvmedisk_write`, `nvmedisk_ioctl` (`nvmedisk.h`). Each program is a sequence of atomic actions;
    the device may act before each of them. `mdelay` only passes time and is left out.

    The namespace is the record the global `ns` points to, which no transfer changes. -/

namespace Nvme
open Bytes BlockDev Resume

/-- Driver code. -/
abbrev Drv := Prog World Halt

def note (ev : Event) : Drv Unit := .modify (·.note ev)

/-- `warn_timeout`, `warn_noalloc`, `warn_internalerror`. -/
def warn (x : Warn) : Drv Unit := note (.warn x)

/-! ### Queue actions -/

def getNextSqe (i : QId) (opc metadata data data2 : Nat) : Drv (Option Nat) :=
  .act fun w =>
    let r := nvmeGetNextSqe (w.q i) opc metadata data data2
    (r.1, w.setQ i r.2)

/-- Fill in the entry `nvme_get_next_sqe` returned; through `NULL` this is undefined. -/
def fillIn (i : QId) (slot : Option Nat) (nsid dword10 dword11 dword12 : Nat) : Drv Unit :=
  match slot with
  | none => .halt .nullSqe
  | some s => .modify fun w => w.setQ i (fillSqe (w.q i) s nsid dword10 dword11 dword12)

def World.commitSqe (w : World) (i : QId) : World :=
  let q := nvmeCommitSqe (w.q i)
  (w.setQ i q).note (.commit i (w.q i).sq.tail ((w.q i).sqes (w.q i).sq.tail) q.sq.tail)

def commitSqe (i : QId) : Drv Unit := .modify (·.commitSqe i)

def pollCq (i : QId) : Drv Bool := .get fun w => nvmePollCq (w.q i)

def World.advanceCq (w : World) (i : QId) : World :=
  let q := nvmeAdvanceCq (w.q i)
  (w.setQ i q).note (.consumed i q.cq.head ((w.q i).cqes (w.q i).cq.head))

/-- Poll once more; if an entry is ready, release its slot: the slot, for the copy to come. -/
def advanceCq (i : QId) : Drv (Option Nat) :=
  .act fun w =>
    if nvmePollCq (w.q i) then (some (w.q i).cq.head, w.advanceCq i) else (none, w)

def World.copyCqe (w : World) (i : QId) (c : NvmeCqe) : World := (w.note (.copied i c)).use (.cqe i c)

@[simp] theorem World.copyCqe_q (w : World) (i : QId) (c : NvmeCqe) : (w.copyCqe i c).q = w.q := rfl

@[simp] theorem World.copyCqe_log (w : World) (i : QId) (c : NvmeCqe) :
    (w.copyCqe i c).log = .copied i c :: w.log := rfl

def copyCqe (i : QId) (slot : Nat) : Drv NvmeCqe :=
  .act fun w => ((w.q i).cqes slot, w.copyCqe i ((w.q i).cqes slot))

def nvmeConsumeCqe (i : QId) : Drv NvmeCqe := do
  match ← advanceCq i with
  | none => return nvmeErrorCqe
  | some slot => copyCqe i slot

/-- The polls of `nvme_wait` that are left. -/
def nvmeWaitLoop (i : QId) : Nat → Drv NvmeCqe
  | 0 => do
    note (.timeout i)
    return nvmeErrorCqe
  | nvmeTimeout + 1 => do
    if ← pollCq i then nvmeConsumeCqe i else nvmeWaitLoop i nvmeTimeout

def nvmeWait (i : QId) : Drv NvmeCqe := nvmeWaitLoop i 500

/-! ### Transfers -/

/-- Some buffer pointer is not double-word aligned. -/
def misaligned (prp1 prp2 : Nat) : Prop := prp1 &&& 0x3 ≠ 0 ∨ prp2 &&& 0x3 ≠ 0

instance (prp1 prp2 : Nat) : Decidable (misaligned prp1 prp2) := by
  unfold misaligned; infer_instance

def nvmeIoXfer (ns : NvmeNamespace) (lba prp1 prp2 count : Nat) (write : Bool) : Drv Int :=
  if misaligned prp1 prp2 then do
    warn .internalerror
    return -1
  else do
    let ioRead ← getNextSqe .io (if write then nvmeSqeOpcIoWrite else nvmeSqeOpcIoRead) 0 prp1 prp2
    fillIn .io ioRead ns.nsId (u32 lba) (u32 (lba >>> 32))
      (1 <<< 31 /- limited retry -/ ||| u32 (count + 4294967295))
    commitSqe .io
    let cqe ← nvmeWait .io
    if nvmeIsCqeSuccess cqe then return count else return -1

def memcpy (dst src n : Nat) : Drv Unit :=
  .modify fun w => w.setMem (copy w.store.mem dst src n)

def dmaBuffer : Drv Nat := .get (·.sys.nvmeDmaBuffer)

/-- How many blocks one bounce moves. -/
def bounceBlocks (ns : NvmeNamespace) (count : Nat) : Nat :=
  let maxBlocks := u16 (nvmePageSize / ns.blockSize)
  if count < maxBlocks then count else maxBlocks

def nvmeBounceXfer (ns : NvmeNamespace) (lba buf count : Nat) (write : Bool) : Drv Int := do
  let blocks := bounceBlocks ns count
  let dma ← dmaBuffer
  if write then
    memcpy dma buf (u32 (blocks * ns.blockSize))
  let res ← nvmeIoXfer ns lba dma 0 blocks write
  if write = false ∧ 0 ≤ res then
    memcpy buf dma (u32 (res.toNat * ns.blockSize))
  return res

/-- The PRP list loop past its first page, with the free list slots left: the entries it writes,
    and whether they reach the end of the buffer (otherwise the code goes to `bounce`). -/
def prplEntries : Nat → Nat → Int → List Nat × Bool
  | slots, base, size =>
    if 0 < size then
      match slots with
      | 0 => ([], false)
      | slots + 1 =>
        let r := prplEntries slots (u32 (base + nvmePageSize)) (size - nvmePageSize)
        (base :: r.1, r.2)
    else ([], true)

/-- The way `nvme_prpl_xfer` takes. -/
inductive Path where
  | single
  | two
  | list (prpl : List Nat)
  | bounce (prpl : List Nat)
  deriving DecidableEq, Repr

/-- A request is cut to what the device accepts in one command. -/
def clampCount (ns : NvmeNamespace) (count : Nat) : Nat :=
  if ns.maxReqSize < count then ns.maxReqSize else count

/-- The decision `nvme_prpl_xfer` makes for `count` blocks at `buf`; a bounce comes with the list
    entries written before the code finds that the list is too short. -/
def prplPath (ns : NvmeNamespace) (buf count : Nat) : Path :=
  let size := u32 (count * ns.blockSize)
  /- fits into PRP1, but may be unaligned -/
  if u32 (size + (buf &&& (nvmePageSize - 1))) ≤ nvmePageSize then .single
  /- every other request has to be page aligned, and full blocks have to fit into the last chunk -/
  else if buf &&& (nvmePageSize - 1) ≠ 0 then .bounce []
  else if size &&& (ns.blockSize - 1) ≠ 0 then .bounce []
  else if nvmePageSize * 2 < size then
    let r := prplEntries nvmeMaxPrplEntries (u32 (buf + nvmePageSize)) (s32 size - nvmePageSize)
    if r.2 then .list r.1 else .bounce r.1
  else if nvmePageSize < size then .two
  else .single

/-- Write list entries to `nvme_dma_buffer`. -/
def writePrpl (dma : Nat) (prpl : List Nat) : Drv Unit :=
  .modify fun w => w.setMem (storeWords w.store.mem dma prpl)

def nvmePrplXfer (ns : NvmeNamespace) (lba buf count : Nat) (write : Bool) : Drv Int :=
  let count := clampCount ns count
  match prplPath ns buf count with
  | .single => nvmeIoXfer ns lba buf 0 count write
  | .two => nvmeIoXfer ns lba buf (u32 (buf + nvmePageSize)) count write
  | .list prpl => do
    let dma ← dmaBuffer
    writePrpl dma prpl
    nvmeIoXfer ns lba buf dma count write
  | .bounce prpl => do
    let dma ← dmaBuffer
    writePrpl dma prpl
    nvmeBounceXfer ns lba buf count write

/-! ### Block requests -/

/-- The block loop over one buffer, from block `id` on, for at most `fuel` transfers. -/
def xferBlocks (ns : NvmeNamespace) (sg : Buf) (write : Bool) (cnt : Int) : Nat → Nat → Drv Int
  | fuel, id =>
    if (id : Int) < cnt then
      match fuel with
      | 0 => .halt .fuel
      | fuel + 1 => do
        let blocksRemaining := ((cnt - id) % 65536).toNat
        let opBuf := u32 (sg.addr + id * ns.blockSize)
        let blocks ← nvmePrplXfer ns (sg.block + id) opBuf blocksRemaining write
        if blocks < 0 then return -1
        else xferBlocks ns sg write cnt fuel (id + blocks.toNat)
    else return 0

/-- `int cnt = sg->length / ns->block_size`. -/
def blockCount (ns : NvmeNamespace) (sg : Buf) : Int := s32 (sg.len / ns.blockSize)

/-- The buffer loop. -/
def xferBufs (ns : NvmeNamespace) (write : Bool) (fuel : Nat) : List Buf → Drv Int
  | [] => return 0
  | sg :: bufs => do
    note (.sg sg)
    let rc ← xferBlocks ns sg write (blockCount ns sg) fuel 0
    if rc < 0 then return -1
    else xferBufs ns write fuel bufs

/-- `nvmedisk_read` and `nvmedisk_write` differ in the direction only; neither uses the registered
    geometry `nvmed`. -/
def nvmediskXfer (ns : NvmeNamespace) (write : Bool) (fuel : Nat) (_nvmed : Nvmedisk)
    (req : BlkdevRequest) : Drv Int := do
  let rc ← xferBufs ns write fuel req.bufs
  if rc < 0 then return -1
  else
    note (.done req.id .successful)
    return 0

def nvmediskRead (ns : NvmeNamespace) := nvmediskXfer ns false

def nvmediskWrite (ns : NvmeNamespace) := nvmediskXfer ns true

/-- The requests `nvmedisk_ioctl` tells apart. -/
inductive IoctlReq where
  | blkioRequest (r : BlkdevRequest)
  | other (req : Nat)

abbrev einval : Nat := 22

def nvmediskIoctl (ns : NvmeNamespace) (rtemsBlkdevIoctl : Nat → Drv Int) (fuel : Nat)
    (nvmed : Nvmedisk) : IoctlReq → Drv Int
  | .blkioRequest r =>
    match r.req with
    | .read => nvmediskRead ns fuel nvmed r
    | .write => nvmediskWrite ns fuel nvmed r
    | .other _ => do
      Prog.modify fun w => w.setSys { w.sys with errno := einval }
      return -1
  | .other req => rtemsBlkdevIoctl req

end Nvme
