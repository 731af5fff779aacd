import NvmeDisk.Queue.Matching
import NvmeDisk.Transfer.Cut

/-! `nvmedisk_ioctl` with a READ or WRITE request, handed to a driver with no command outstanding on
    either queue. Memory and disk are followed here, which takes a controller whose errors show in
    the status code byte, the only one the driver looks at. -/

namespace Nvme
open Ring Resume Bytes BlockDev

/-- No command is outstanding, and the bounce page is a page. -/
structure AtEase (L C : Nat) (w : World) : Prop where
  idle : ∃ D, Idle L C D (w.q .io)
  calm : Calm .io w
  dmaPage : w.sys.nvmeDmaBuffer % 4096 = 0

def reqOp (write : Bool) : ReqOp := if write then .write else .read

/-- Every error of the controller shows in the status code byte. -/
def Coded (mayFail : Nat → Bool) : Prop := ∀ sf, mayFail sf = true → sf % 256 ≠ 0

/-- The controllers that may fail any command, with a non-zero status code. -/
def codedFail : Nat → Bool := fun sf => sf % 256 != 0

theorem coded_codedFail : Coded codedFail := fun sf h => by simpa [codedFail] using h

variable {mayFail : Nat → Bool} {L C : Nat} {w v : World} {ns : NvmeNamespace} {write : Bool}
  {fuel : Nat} {bufs : List Buf} {lg : List Item} {S : Store → Prop}

/-- A controller as above, serving a driver at ease. -/
def AtEase.setting [Fact (Pow2 L)] [Fact (Pow2 C)] (h : AtEase L C w) (hm : Coded mayFail) : Setting where
  mayFail := mayFail
  followed := True
  coded _ := hm
  L := L
  C := C
  sqPow := .ofFact
  cqPow := .ofFact
  sys := w.sys
  dmaPage := h.dmaPage
  dev := w.dev

theorem AtEase.resting [Fact (Pow2 L)] [Fact (Pow2 C)] (h : AtEase L C w) (hm : Coded mayFail) :
    Resting (h.setting hm) (ledger w.log) (EqOff (Page w.sys.nvmeDmaBuffer) w.store) w :=
  ⟨h.idle, rfl, rfl, rfl, fun _ => ⟨h.calm, .refl ..⟩⟩

/-- A queue at rest again is at ease again. -/
theorem Resting.atEase [Fact (Pow2 L)] [Fact (Pow2 C)] (h : AtEase L C w) (hm : Coded mayFail)
    (hv : Resting (h.setting hm) lg S v) :
    AtEase L C v where
  idle := hv.idle
  calm := (hv.store trivial).1
  dmaPage := by rw [hv.sys]; exact h.dmaPage

theorem nvmediskIoctl_xfer (ioctl : Nat → Drv Int) (nvmed : Nvmedisk) {r : BlkdevRequest}
    (h : r.req = reqOp write) : nvmediskIoctl ns ioctl fuel nvmed (.blkioRequest r) =
      nvmediskXfer ns write fuel nvmed r := by
  cases write <;> simp only [nvmediskIoctl, h, reqOp, if_true, Bool.false_eq_true, if_false] <;> rfl

theorem Placed.enough {d : Device} {dma : Nat} {sg : Buf} (h : Placed d dma ns sg)
    (hB : GoodBlock ns.blockSize) (hfuel : 65535 ≤ fuel) : Enough ns sg fuel 0 := by
  have hcnt := h.blockCount
  have hmost := h.most
  exact ⟨by omega, fun id hv => stride_pos hB h.request (by omega) hv.lt⟩

/-- ENTRY RULE: from a driver at ease the request follows its plan, with fuel for any buffer of at
    most 65535 blocks. -/
theorem AtEase.wp_ioctl [Fact (Pow2 L)] [Fact (Pow2 C)] (h : AtEase L C w) (hm : Coded mayFail)
    (hB : GoodBlock ns.blockSize)
    (hbufs : ∀ sg ∈ bufs, Placed w.dev w.sys.nvmeDmaBuffer ns sg) (hfuel : 65535 ≤ fuel)
    (ioctl : Nat → Drv Int) (nvmed : Nvmedisk) (id : Nat) :
    Wp (Nvmec mayFail) (fun _ => True)
      (nvmediskIoctl ns ioctl fuel nvmed (.blkioRequest ⟨id, reqOp write, bufs⟩))
      (RequestEnd (h.setting hm) (ledger w.log) w.store ns ⟨id, reqOp write, bufs⟩ write)
      (fun _ _ => False) w := by
  rw [nvmediskIoctl_xfer ioctl nvmed rfl]
  refine wp_mono (wp_nvmediskXfer (x := h.setting hm) hB nvmed _ (fun _ => hbufs) (h.resting hm))
    (fun _ h => h) (fun _ _ _ h => h) ?_
  rintro e u _ ⟨_, hshort⟩
  exact hshort fun sg hsg => (hbufs sg hsg).enough hB hfuel

/-! ### Fresh queues -/

theorem freshWorld_atEase {L C : QId → Nat} {y : Sys} (hL : ∀ i, Pow2 (L i) ∧ L i ≤ 65536)
    (hC : ∀ i, Pow2 (C i) ∧ C i ≤ 65536) (hdma : y.nvmeDmaBuffer % 4096 = 0) (s : Store)
    (d : Device) : AtEase (L .io) (C .io) (freshWorld L C s y d) := by
  have hidle : ∀ i, Idle (L i) (C i) [] ((freshWorld L C s y d).q i) := fun i =>
    (freshPair_initialised i (L i) (C i)).idle (hL i).1 (hC i).1 (hL i).2 (hC i).2
  exact ⟨⟨[], hidle .io⟩, fun j _ => (hidle j).noWork, hdma⟩

theorem pow2_two : Pow2 2 := ⟨1, by decide, rfl⟩

theorem pow2_four : Pow2 4 := ⟨2, by decide, rfl⟩

/-- The namespace record for the device of the samples. -/
def sampleNs : NvmeNamespace := ⟨1, 1000, 512, 0, 16⟩

theorem sampleNs_goodBlock : GoodBlock sampleNs.blockSize := ⟨by decide, by decide⟩

/-- One block, at the start of a page above 1 MiB. -/
def sampleBuf (block page : Nat) : Buf := ⟨block, 0x100000 + 4096 * page, 512⟩

theorem sampleBuf_sound {block page : Nat} (h : block < 1000) (hp : page < 256) :
    Sound sampleDevice sampleSys.nvmeDmaBuffer sampleNs (sampleBuf block page) where
  serves := ⟨rfl, rfl, rfl, by decide⟩
  quad := rfl
  request := by decide
  whole := ⟨1, rfl⟩
  most := Nat.le_of_lt_succ (show 512 / 512 < 65536 by decide)
  align := by
    change (0x100000 + 4096 * page) % 4 = 0
    omega
  top := by
    change 0x100000 + 4096 * page + 512 ≤ 4294967296
    omega
  range := by
    change block + 512 / 512 ≤ 1000
    omega
  dmaTop := by decide
  apart o ho := by
    change o < 512 at ho
    change ¬ (0x200000 ≤ 0x100000 + 4096 * page + o ∧ 0x100000 + 4096 * page + o < 0x200000 + 4096)
    omega

end Nvme
