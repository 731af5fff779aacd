import NvmeDisk.Requests.Geometry
import NvmeDisk.Requests.Handing

/-! How far a request reaches. The driver compares no block number with the size of the namespace: a
    request that keeps below the registered end of the disk has its commands below that end, whatever
    the device does, and below the end of the namespace only as far as the table of disks says so. -/

namespace Nvme
open Ring Resume Bytes BlockDev

/-- The command ends at or before block `N`. -/
def EndsBy (N : Nat) (e : NvmeSqe) : Prop := e.slba + e.blocks ≤ N

variable {w v : World} {base : List NvmeSqe} {ns : NvmeNamespace} {N lba count : Nat} {write : Bool}
  {sg : Buf}

theorem ioSqe_ends (hlba : lba < 18446744073709551616) (hcount : count ≤ 65535)
    (hend : lba + cmdBlocks count ≤ N) (prp1 prp2 tail : Nat) :
    EndsBy N (ioSqe ns lba prp1 prp2 count write tail) := by
  rw [EndsBy, ioSqe_slba, ioSqe_blocks _ _ _ _ _ _ hcount, u64, Nat.mod_eq_of_lt hlba]
  exact hend

/-! ### The loops -/

/-- Blocks the command at block `id` covers: never more than are left. -/
theorem cmdBlocks_stride_le (hB : GoodBlock ns.blockSize) (hreq : 1 ≤ ns.maxReqSize) {id : Nat}
    (h : (id : Int) < blockCount ns sg) : ((id + cmdBlocks (stride ns sg id) : Nat) : Int) ≤
      blockCount ns sg := by
  rw [cmdBlocks]
  split
  · -- nothing is moved only when a multiple of 65536 blocks is left
    rename_i hzero
    have hrem : remaining ns sg id = 0 := by
      by_contra hne
      have := movedBlocks_pos hB hreq (Nat.one_le_iff_ne_zero.mpr hne) (opBuf ns sg id)
      rw [stride] at hzero
      omega
    rw [remaining] at hrem
    omega
  · exact stride_le h

/-- The loop over one buffer keeps below its end. -/
theorem below_xferBlocks (hB : GoodBlock ns.blockSize) (hreq : 1 ≤ ns.maxReqSize)
    (hblock : sg.block < 4294967296) (hend : (sg.block + blockCount ns sg : Int) ≤ N) :
    ∀ (fuel id : Nat) (w : World), Hands (EndsBy N) base w →
      HandsOnly (EndsBy N) base (xferBlocks ns sg write (blockCount ns sg) fuel id) (fun _ => True) w := by
  have hcount : blockCount ns sg < 2147483648 := by
    rw [blockCount, s32]
    split <;> omega
  intro fuel
  induction fuel with
  | zero =>
    intro id w h
    rw [xferBlocks]
    split
    · exact wp_halt fun v he =>
        ⟨(hands_stable _ base).env h he, (hands_stable _ base).env h he⟩
    · exact hands_ret trivial h
  | succ fuel ih =>
    intro id w h
    rw [xferBlocks]
    split
    · rename_i hid
      have hfit := cmdBlocks_stride_le hB hreq hid
      have hrem := remaining_le ns sg id
      have hends : ∀ prp1 prp2 tail,
          EndsBy N (ioSqe ns (sg.block + id) prp1 prp2 (stride ns sg id) write tail) :=
        ioSqe_ends (by omega) ((movedBlocks_le ..).trans hrem) (by omega)
      refine wp_seq (hands_prplXfer hends h) (fun _ _ h => h) fun blocks v hv => ?_
      split
      · exact hands_ret trivial hv.2
      · exact ih _ v hv.2
    · exact hands_ret trivial h

theorem below_xferBufs (hB : GoodBlock ns.blockSize) (hreq : 1 ≤ ns.maxReqSize) {fuel : Nat} :
    ∀ (bufs : List Buf) (w : World),
      (∀ sg ∈ bufs, sg.block < 4294967296 ∧ (sg.block + blockCount ns sg : Int) ≤ N) →
      Hands (EndsBy N) base w → HandsOnly (EndsBy N) base (xferBufs ns write fuel bufs) (fun _ => True) w
  | [], _, _, h => hands_ret trivial h
  | sg :: bufs, w, hbufs, h => by
    obtain ⟨hblock, hend⟩ := hbufs sg (List.mem_cons_self ..)
    refine hands_modify (fun _ => rfl) (fun v hv => ?_) h
    refine wp_seq (below_xferBlocks hB hreq hblock hend fuel 0 v hv) (fun _ _ h => h) fun rc u hu => ?_
    split
    · exact hands_ret trivial hu.2
    · exact below_xferBufs hB hreq bufs u (fun b hb => hbufs b (List.mem_cons_of_mem _ hb)) hu.2

/-- The blocks of a buffer that keeps below the registered end. -/
theorem blockCount_below (h : sg.block + sg.len / ns.blockSize ≤ N) :
    sg.block ≤ N ∧ (sg.block + blockCount ns sg : Int) ≤ N := by
  refine ⟨(Nat.le_add_right ..).trans h, ?_⟩
  rw [blockCount]
  generalize sg.len / ns.blockSize = n at h
  rw [s32]
  split <;> omega

/-! ### The request -/

variable {nvmed : Nvmedisk} {r : BlkdevRequest} {fuel : Nat} {ioctl : Nat → Drv Int} {q : Drv Int}
  {new : List NvmeSqe}

theorem below_ioctl (hB : GoodBlock ns.blockSize) (hreq : 1 ≤ ns.maxReqSize)
    (hop : r.req = reqOp write)
    (hbufs : ∀ sg ∈ r.bufs, sg.block < 4294967296 ∧ (sg.block + blockCount ns sg : Int) ≤ N)
    (h : Hands (EndsBy N) base w) :
    HandsOnly (EndsBy N) base (nvmediskIoctl ns ioctl fuel nvmed (.blkioRequest r)) (fun _ => True) w := by
  rw [nvmediskIoctl_xfer ioctl nvmed hop]
  refine wp_seq (below_xferBufs hB hreq r.bufs w hbufs h) (fun _ _ h => h) fun rc v hv => ?_
  split
  · exact hands_ret trivial hv.2
  · exact hands_modify (fun _ => rfl) (fun u hu => hands_ret trivial hu) hv.2

/-- REACH RULE: a request that keeps below the registered end of the disk has every command end there
    at the latest, hence inside the namespace if the table of disks promises no more than that. -/
theorem commands_below (hns : Accepted ns) (hreq : 1 ≤ ns.maxReqSize)
    (hsize : ns.blockSize = nvmed.blockSize) (hnum : nvmed.blockNum < 4294967296)
    (hop : r.req = reqOp write)
    (hbufs : ∀ sg ∈ r.bufs, sg.block + sg.len / nvmed.blockSize ≤ nvmed.blockNum)
    (hrun : Steps Foreign w (nvmediskIoctl ns ioctl fuel nvmed (.blkioRequest r)) v q)
    (hnew : handedOver v.log = new ++ handedOver w.log) :
    ∀ e ∈ new, e.slba + e.blocks ≤ nvmed.blockNum ∧
      (nvmed.blockNum ≤ ns.lbaCount → e.slba + e.blocks ≤ ns.lbaCount) := by
  have hbelow : ∀ sg ∈ r.bufs,
      sg.block < 4294967296 ∧ (sg.block + blockCount ns sg : Int) ≤ nvmed.blockNum := by
    intro sg hsg
    have hend := hbufs sg hsg
    rw [← hsize] at hend
    obtain ⟨hblock, hcount⟩ := blockCount_below hend
    exact ⟨hblock.trans_lt hnum, hcount⟩
  have hends := (below_ioctl hns.goodBlock hreq hop hbelow (.start _ w) v q hrun).1.new hnew
  exact fun e he => ⟨hends e he, (hends e he).trans⟩

/-! ### A namespace smaller than the table says -/

/-- The disk of the shipped table. -/
def shippedDisk : Nvmedisk := ⟨512, 1048576⟩

/-- A namespace of 8 blocks. -/
def smallNs : NvmeNamespace := ⟨1, 8, 512, 0, 16⟩

def smallWorld : World :=
  freshWorld sampleSqLen sampleCqLen ⟨fun _ => 0, fun _ => 0⟩ sampleSys
    ⟨1, 512, 8, fun _ _ _ => 7⟩

/-- Read one block. -/
def oneBlock (block : Nat) : BlkdevRequest := ⟨7, .read, [sampleBuf block 0]⟩

/-- A request for block 8, up to its doorbell write. -/
def readPast : World × Drv Int :=
  follow (nvmeMove noFail) [none, none, none, none] smallWorld
    (nvmediskIoctl smallNs (fun _ => return 0) 1 shippedDisk (.blkioRequest (oneBlock 8)))

/-- Block 8 is below the registered end and past the end of the namespace. -/
theorem reaches_past : Accepted smallNs ∧ smallNs.blockSize = shippedDisk.blockSize ∧
    (∀ sg ∈ (oneBlock 8).bufs, sg.block + sg.len / shippedDisk.blockSize ≤ shippedDisk.blockNum) ∧
    ∃ v q, Steps (Nvmec noFail) smallWorld
        (nvmediskIoctl smallNs (fun _ => return 0) 1 shippedDisk (.blkioRequest (oneBlock 8))) v q ∧
      ∃ e ∈ handedOver v.log, smallNs.lbaCount < e.slba + e.blocks :=
  ⟨⟨⟨9, rfl⟩, by decide, ⟨1, rfl⟩⟩, rfl, by decide, readPast.1, readPast.2, follow_steps _ _ _ _,
    by decide +kernel⟩

/-- The last block of the namespace, on a disk registered with the right size. -/
def readLast : World × Drv Int :=
  follow (nvmeMove noFail) (none :: oneCommand .io) smallWorld
    (nvmediskIoctl smallNs (fun _ => return 0) 1 ⟨512, 8⟩ (.blkioRequest (oneBlock 7)))

theorem commands_below_sample : (handedOver readLast.1.log).length = 1 ∧
    ∀ e ∈ handedOver readLast.1.log,
      e.slba + e.blocks ≤ 8 ∧ (8 ≤ smallNs.lbaCount → e.slba + e.blocks ≤ smallNs.lbaCount) := by
  have hns : Accepted smallNs := ⟨⟨9, rfl⟩, by decide, ⟨1, rfl⟩⟩
  have hrun : Steps Foreign smallWorld
      (nvmediskIoctl smallNs (fun _ => return 0) 1 ⟨512, 8⟩ (.blkioRequest (oneBlock 7)))
      readLast.1 readLast.2 :=
    (follow_steps (nvmeMove noFail) (none :: oneCommand .io) _ _).mono fun _ _ => nvmec_foreign
  have hop : (oneBlock 7).req = reqOp false := rfl
  exact ⟨by decide, commands_below hns (by decide) rfl (by decide) hop (by decide) hrun
    (List.append_nil _).symm⟩

end Nvme
