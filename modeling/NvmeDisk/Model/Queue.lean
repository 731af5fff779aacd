import Mathlib.Data.Nat.Bitwise
import NvmeDisk.Model.Types

/-! The queue operations of `nvme-bsp.h` on one queue pair: `nvme_poll_cq`, `nvme_consume_cqe`,
    `nvme_get_next_sqe`, `nvme_commit_sqe` and the initialisation of the two structures. -/

namespace Nvme

/-- The phase tag as the driver reads it, out of dword 3. -/
def NvmeCqe.tag (c : NvmeCqe) : Bool := c.dword3 &&& nvmeCqeDw3P != 0

def nvmePollCq (q : QPair) : Bool := (q.cqes q.cq.head).tag == q.cq.phase

def nvmeIsCqeSuccess (c : NvmeCqe) : Bool := (c.status >>> 1) &&& 0xFF == 0

/-- All bytes `0xFF`. -/
def nvmeErrorCqe : NvmeCqe := ⟨0xFFFFFFFF, 0xFFFFFFFF, 0xFFFF, 0xFFFF, 0xFFFF, 0xFFFF⟩

/-- `nvme_consume_cqe` up to the doorbell write, on a ready entry. The doorbell releases the slot;
    the entry is copied out of it only afterwards. -/
def nvmeAdvanceCq (q : QPair) : QPair :=
  let cqNextHead := (q.cq.head + 1) &&& q.cq.common.mask
  { q with
    cq := { q.cq with
      phase := if cqNextHead < q.cq.head then !q.cq.phase else q.cq.phase
      head := cqNextHead }
    sq := { q.sq with head := (q.cqes q.cq.head).sqHead }
    ctl := { q.ctl with head := cqNextHead } }

/-- Command dword 0 and the three pointers of a fresh entry; the rest is cleared. -/
def freshSqe (tail opc metadata data data2 : Nat) : NvmeSqe where
  cdw0 := u32 (opc ||| tail <<< 16)
  nsid := 0
  mptr := u32 metadata
  dptrPrp1 := u32 data
  dptrPrp2 := u32 data2
  dword10 := 0
  dword11 := 0
  dword12 := 0

/-- The slot of the next entry, `none` for `NULL`; the entry is cleared and its header filled in. -/
def nvmeGetNextSqe (q : QPair) (opc metadata data data2 : Nat) : Option Nat × QPair :=
  if (q.sq.head + 1) &&& q.sq.common.mask = q.sq.tail then (none, q)
  else (some q.sq.tail, { q with
    sqes := Function.update q.sqes q.sq.tail (freshSqe q.sq.tail opc metadata data data2) })

/-- The caller fills in the fields of the entry it was given. -/
def fillSqe (q : QPair) (slot nsid dword10 dword11 dword12 : Nat) : QPair :=
  { q with sqes := Function.update q.sqes slot { q.sqes slot with
      nsid := nsid
      dword10 := dword10
      dword11 := dword11
      dword12 := dword12 } }

/-- Advance the tail and write it to the doorbell. -/
def nvmeCommitSqe (q : QPair) : QPair :=
  let tail := (q.sq.tail + 1) &&& q.sq.common.mask
  { q with sq := { q.sq with tail := tail }, ctl := { q.ctl with tail := tail } }

def zeroSqe : NvmeSqe := ⟨0, 0, 0, 0, 0, 0, 0, 0⟩

def zeroCqe : NvmeCqe := ⟨0, 0, 0, 0, 0, 0⟩

/-- `nvme_init_queue_common`: the doorbell register of index `qIdx` and the mask. -/
def nvmeInitQueueCommon (doorbellStride qIdx length : Nat) : NvmeQueue where
  dbl := 0x1000 + qIdx * doorbellStride
  mask := u16 (length + 65535)

/-- `nvme_init_sq` once its ring is allocated at `sqe`, cleared. -/
def initSq (q : QPair) (doorbellStride qIdx length sqe : Nat) : QPair :=
  { q with
    sq := ⟨nvmeInitQueueCommon doorbellStride qIdx length, sqe, 0, 0⟩
    sqes := fun _ => zeroSqe }

/-- `nvme_init_cq` once its ring is allocated at `cqe`, cleared: all phase bits are zero, so the
    first entries to wait for carry a one. -/
def initCq (q : QPair) (doorbellStride qIdx length cqe : Nat) : QPair :=
  { q with
    cq := ⟨nvmeInitQueueCommon doorbellStride qIdx length, cqe, 0, true⟩
    cqes := fun _ => zeroCqe }

/-! ### What the operations do -/

/-- Bit 16 of dword 3 is the lowest status bit. -/
theorem tag_eq_phase (c : NvmeCqe) (h : c.cid < 65536) : c.tag = c.phase := by
  have hor : c.dword3 = 2 ^ 16 * c.status + c.cid := by
    rw [NvmeCqe.dword3, Nat.or_comm, Nat.shiftLeft_eq, Nat.mul_comm]
    exact (Nat.two_pow_add_eq_or_of_lt (i := 16) h c.status).symm
  have hbit : c.dword3.testBit 16 = c.phase := by
    rw [Nat.testBit_eq_decide_div_mod_eq, hor, NvmeCqe.phase,
      show (2 ^ 16 * c.status + c.cid) / 2 ^ 16 = c.status by omega]
    rfl
  rw [NvmeCqe.tag, ← hbit, show nvmeCqeDw3P = 2 ^ 16 from rfl, Nat.and_two_pow]
  cases c.dword3.testBit 16 <;> rfl

/-- Opcode and command id do not overlap in command dword 0. -/
theorem freshSqe_cdw0 (tail metadata data data2 : Nat) {opc : Nat} (h : opc < 256) :
    (freshSqe tail opc metadata data data2).cdw0 = u32 (65536 * tail + opc) := by
  rw [freshSqe, Nat.or_comm, Nat.shiftLeft_eq, Nat.mul_comm]
  exact congrArg u32 (Nat.two_pow_add_eq_or_of_lt (i := 16) (by omega) tail).symm

theorem freshSqe_opc (tail metadata data data2 : Nat) {opc : Nat} (h : opc < 256) :
    (freshSqe tail opc metadata data data2).opc = opc := by
  rw [NvmeSqe.opc, freshSqe_cdw0 _ _ _ _ h, u32]
  omega

theorem nvmeIsCqeSuccess_iff (c : NvmeCqe) : nvmeIsCqeSuccess c = true ↔ c.sf % 256 = 0 := by
  rw [nvmeIsCqeSuccess, Nat.shiftRight_eq_div_pow, show 0xFF = 2 ^ 8 - 1 from rfl,
    Nat.and_two_pow_sub_one_eq_mod]
  simp [NvmeCqe.sf]

@[simp] theorem nvmeErrorCqe_not_success : nvmeIsCqeSuccess nvmeErrorCqe = false := by decide

/-- A queue length that fits 16 bits and is not zero gives the mask `length - 1`. -/
theorem initQueueCommon_mask (stride qIdx length : Nat) (h0 : 0 < length) (h : length ≤ 65536) :
    (nvmeInitQueueCommon stride qIdx length).mask = length - 1 := by
  simp only [nvmeInitQueueCommon, u16]
  omega

end Nvme
