import NvmeDisk.Queue.Ops
import NvmeDisk.Requests.Serving

/-! The actions a block request is made of, for a relation between the worlds before and after each: if
    it allows the queue operations on the I/O pair, writes to memory and entries in the log, then it
    allows every action of every request. -/

namespace Nvme
open Resume Bytes BlockDev

def Event.isDone : Event → Bool
  | .done _ _ => true
  | _ => false

/-- `ρ` allows the actions of the transfer code, up to the answer to the request. -/
structure Carries (ρ : World → World → Prop) : Prop where
  refl : ∀ w, ρ w w
  onQueue : ∀ {c w v}, OnQueue .io c w v → ρ w v
  setMem : ∀ w m, ρ w (w.setMem m)
  note : ∀ w ev, ev.isDone = false → ρ w (w.note ev)

/-- All actions are allowed, whatever is found. -/
abbrev Carried {α : Type} (ρ : World → World → Prop) (p : Drv α) : Prop :=
  p.Acts (fun _ => True) ρ fun _ => True

namespace Carries

variable {ρ : World → World → Prop} {α : Type} {write : Bool} {fuel : Nat}

theorem does {ρ' : World → World → Prop} {p : Drv α} (hp : p.Does ρ') (h : ∀ w v, ρ' w v → ρ w v) :
    Carried ρ p := .of_does hp fun w v hv _ => ⟨h w v hv, trivial⟩

theorem get (h : Carries ρ) (g : World → α) : Carried ρ (Prog.get g) :=
  .get (fun w _ => h.refl w) fun _ _ => trivial

theorem set (h : Carries ρ) (g : World → Mem) : Carried ρ (Prog.modify fun w => w.setMem (g w)) :=
  .modify (fun w _ => ⟨h.setMem w _, trivial⟩) trivial

theorem log (h : Carries ρ) {ev : Event} (hev : ev.isDone = false) : Carried ρ (Nvme.note ev) :=
  .modify (fun w _ => ⟨h.note w ev hev, trivial⟩) trivial

theorem ioXfer (h : Carries ρ) (ns : NvmeNamespace) (lba prp1 prp2 count : Nat) :
    Carried ρ (nvmeIoXfer ns lba prp1 prp2 count write) := by
  unfold nvmeIoXfer
  split
  · exact .bind (h.log rfl) fun _ _ => .ret trivial
  refine .bind (does (does_getNextSqe ..) fun _ _ => h.onQueue) fun slot _ => ?_
  cases slot with
  | none => exact .halt
  | some s =>
    refine .bind (does (does_fillIn ..) fun _ _ => h.onQueue) fun _ _ => ?_
    refine .bind (does (does_commitSqe _) fun _ _ => h.onQueue) fun _ _ => ?_
    refine .bind (does (does_wait _) fun _ _ => h.onQueue) fun cqe _ => ?_
    split <;> exact .ret trivial

theorem bounceXfer (h : Carries ρ) (ns : NvmeNamespace) (lba buf count : Nat) :
    Carried ρ (nvmeBounceXfer ns lba buf count write) := by
  have htail : ∀ dma, Carried ρ (do
      let res ← nvmeIoXfer ns lba dma 0 (bounceBlocks ns count) write
      if write = false ∧ 0 ≤ res then
        memcpy buf dma (u32 (res.toNat * ns.blockSize))
      return res) := by
    intro dma
    refine .bind (h.ioXfer _ _ _ _ _) fun res _ => ?_
    split
    · exact .bind (h.set _) fun _ _ => .ret trivial
    · exact .ret trivial
  refine .bind (h.get _) fun dma _ => ?_
  cases write with
  | false => exact htail dma
  | true => exact .bind (h.set _) fun _ _ => htail dma

theorem prplXfer (h : Carries ρ) (ns : NvmeNamespace) (lba buf count : Nat) :
    Carried ρ (nvmePrplXfer ns lba buf count write) := by
  unfold nvmePrplXfer
  dsimp only
  split
  · exact h.ioXfer _ _ _ _ _
  · exact h.ioXfer _ _ _ _ _
  · exact .bind (h.get _) fun dma _ => .bind (h.set _) fun _ _ => h.ioXfer _ _ _ _ _
  · exact .bind (h.get _) fun dma _ => .bind (h.set _) fun _ _ => h.bounceXfer _ _ _ _

theorem xferBlocks (h : Carries ρ) (ns : NvmeNamespace) (sg : Buf) (cnt : Int) :
    ∀ fuel id, Carried ρ (Nvme.xferBlocks ns sg write cnt fuel id) := by
  intro fuel
  induction fuel with
  | zero =>
    intro id
    rw [Nvme.xferBlocks]
    split
    · exact .halt
    · exact .ret trivial
  | succ fuel ih =>
    intro id
    rw [Nvme.xferBlocks]
    split
    · refine .bind (h.prplXfer _ _ _ _) fun res _ => ?_
      split
      · exact .ret trivial
      · exact ih _
    · exact .ret trivial

theorem xferBufs (h : Carries ρ) (ns : NvmeNamespace) (bufs : List Buf) :
    Carried ρ (Nvme.xferBufs ns write fuel bufs) := by
  induction bufs with
  | nil => exact .ret trivial
  | cons sg bufs ih =>
    refine .bind (h.log rfl) fun _ _ => .bind (h.xferBlocks ns sg _ _ _) fun rc _ => ?_
    split
    · exact .ret trivial
    · exact ih

theorem request (h : Carries ρ) (hdone : ∀ w req sc, ρ w (w.note (.done req sc))) (ns : NvmeNamespace)
    (ioctl : Nat → Drv Int) (nvmed : Nvmedisk) (j : Job) :
    Carried ρ (nvmediskIoctl ns ioctl fuel nvmed (.blkioRequest j.request)) := by
  have hioctl : nvmediskIoctl ns ioctl fuel nvmed (.blkioRequest j.request) =
      nvmediskXfer ns j.write fuel nvmed j.request := nvmediskIoctl_xfer ioctl nvmed rfl
  rw [hioctl]
  refine .bind (h.xferBufs ns _) fun rc _ => ?_
  split
  · exact .ret trivial
  · exact .bind (Q := fun _ => True) (.modify (fun w _ => ⟨hdone w _ _, trivial⟩) trivial) fun _ _ => .ret trivial

theorem runJobs (h : Carries ρ) (hdone : ∀ w req sc, ρ w (w.note (.done req sc))) (ns : NvmeNamespace)
    (ioctl : Nat → Drv Int) (nvmed : Nvmedisk) : ∀ js, Carried ρ (Nvme.runJobs ns ioctl fuel nvmed js)
  | [] => .ret trivial
  | j :: js => .bind (h.set _) fun _ _ => .bind (h.request hdone ns ioctl nvmed j) fun _ _ =>
      .bind (h.runJobs hdone ns ioctl nvmed js) fun _ _ => .ret trivial

end Carries

end Nvme
