import NvmeDisk.Model.Controller
import NvmeDisk.Model.Driver

/-! How long the transfer code can take: every path through it has a bounded number of actions, the
    polls of `nvme_wait` included, and none of them takes anything back from the log. -/

namespace Nvme
open Resume Bytes

/-- The log is appended to. -/
def Grows (w v : World) : Prop := ∃ new, v.log = new ++ w.log

variable {mayFail : Nat → Bool} {w v : World} {i : QId} {n fuel : Nat} {write : Bool}

theorem Grows.quiet (h : v.log = w.log) : Grows w v := ⟨[], h⟩

theorem Grows.note {ev : Event} (h : v.log = ev :: w.log) : Grows w v := ⟨[ev], h⟩

theorem Grows.mem (h : Grows w v) {ev : Event} (hev : ev ∈ w.log) : ev ∈ v.log := by
  obtain ⟨new, hnew⟩ := h
  rw [hnew]
  exact List.mem_append_right _ hev

/-- The controller takes nothing back from the log either. -/
theorem grows_env (he : Env (Nvmec mayFail) w v) : Grows w v := by
  induction he with
  | refl => exact .quiet rfl
  | tail _ hr ih =>
    obtain ⟨m, hm⟩ := hr
    obtain ⟨new, hnew⟩ := ih
    rcases nvmeMove_cases hm with ⟨i, _, rfl⟩ | ⟨i, k, g, e, n, t, _, _, rfl⟩ |
      ⟨i, k, e, n, t, _, _, rfl⟩ | ⟨i, k, e, n, sf, _, _, rfl⟩ | ⟨i, k, e, n, sf, _, rfl⟩
    · exact ⟨new, hnew⟩
    · exact ⟨_ :: new, congrArg (_ :: ·) hnew⟩
    · exact ⟨_ :: new, congrArg (_ :: ·) hnew⟩
    · exact ⟨new, hnew⟩
    · exact ⟨new, hnew⟩

/-- The driver has at most `n` actions left, whatever it finds. -/
abbrev Bounded {α : Type} (n : Nat) (p : Drv α) : Prop := p.Within Grows n

theorem bounded_note (ev : Event) : Bounded 1 (note ev) := .modify fun _ => .note rfl

theorem bounded_getNextSqe (opc metadata data data2 : Nat) :
    Bounded 1 (getNextSqe i opc metadata data data2) := .act fun _ => .quiet rfl

theorem bounded_fillIn (slot : Option Nat) (nsid dword10 dword11 dword12 : Nat) :
    Bounded 1 (fillIn i slot nsid dword10 dword11 dword12) := by
  cases slot with
  | none => exact .halt
  | some s => exact .modify fun _ => .quiet rfl

theorem bounded_commitSqe : Bounded 1 (commitSqe i) := .modify fun _ => .note rfl

theorem bounded_consumeCqe : Bounded 2 (nvmeConsumeCqe i) := by
  refine .bind (n := 1) (m := 1) (.act fun w => ?_) fun slot => ?_
  · split
    · exact .note rfl
    · exact .quiet rfl
  · cases slot with
    | none => exact .ret
    | some s => exact .act fun _ => .note rfl

/-- One action for each poll that is left, and what follows the last. -/
theorem bounded_waitLoop (n : Nat) : Bounded (n + 2) (nvmeWaitLoop i n) := by
  induction n with
  | zero => exact .bind (n := 1) (m := 1) (bounded_note _) fun _ => .ret
  | succ n ih =>
    have hrest : ∀ ready, Bounded (n + 2)
        (if ready = true then nvmeConsumeCqe i else nvmeWaitLoop i n) := by
      intro ready
      split
      · exact bounded_consumeCqe.mono (by omega)
      · exact ih
    exact (Prog.Within.bind (.get (fun _ => .quiet rfl) _) hrest).mono (by omega)

theorem bounded_ioXfer (ns : NvmeNamespace) (lba prp1 prp2 count : Nat) :
    Bounded 505 (nvmeIoXfer ns lba prp1 prp2 count write) := by
  unfold nvmeIoXfer
  split
  · exact .bind (n := 1) (m := 504) (bounded_note _) fun _ => .ret
  · refine .bind (n := 1) (m := 504) (bounded_getNextSqe _ _ _ _) fun slot => ?_
    refine .bind (n := 1) (m := 503) (bounded_fillIn _ _ _ _ _) fun _ => ?_
    refine .bind (n := 1) (m := 502) bounded_commitSqe fun _ => ?_
    refine .bind (n := 502) (m := 0) (bounded_waitLoop 500) fun cqe => ?_
    split <;> exact .ret

theorem bounded_memcpy (dst src k : Nat) : Bounded 1 (memcpy dst src k) :=
  .modify fun _ => .quiet rfl

theorem bounded_dmaBuffer : Bounded 1 dmaBuffer := .get (fun _ => .quiet rfl) _

theorem bounded_bounceXfer (ns : NvmeNamespace) (lba buf count : Nat) :
    Bounded 508 (nvmeBounceXfer ns lba buf count write) := by
  have htail : ∀ dma, Bounded 506 (do
      let res ← nvmeIoXfer ns lba dma 0 (bounceBlocks ns count) write
      if write = false ∧ 0 ≤ res then
        memcpy buf dma (u32 (res.toNat * ns.blockSize))
      return res) := by
    intro dma
    refine .bind (n := 505) (m := 1) (bounded_ioXfer _ _ _ _ _) fun res => ?_
    split
    · exact .bind (n := 1) (m := 0) (bounded_memcpy _ _ _) fun _ => .ret
    · exact .ret
  refine .bind (n := 1) (m := 507) bounded_dmaBuffer fun dma => ?_
  cases write with
  | false => exact (htail dma).mono (by omega)
  | true => exact .bind (n := 1) (m := 506) (bounded_memcpy _ _ _) fun _ => htail dma

theorem bounded_prplXfer (ns : NvmeNamespace) (lba buf count : Nat) :
    Bounded 510 (nvmePrplXfer ns lba buf count write) := by
  have hlist : ∀ dma prpl, Bounded 1 (writePrpl dma prpl) := fun dma prpl =>
    .modify fun _ => .quiet rfl
  unfold nvmePrplXfer
  dsimp only
  split
  · exact (bounded_ioXfer _ _ _ _ _).mono (by omega)
  · exact (bounded_ioXfer _ _ _ _ _).mono (by omega)
  · refine .bind (n := 1) (m := 509) bounded_dmaBuffer fun dma => ?_
    exact .bind (n := 1) (m := 508) (hlist _ _) fun _ => (bounded_ioXfer _ _ _ _ _).mono (by omega)
  · refine .bind (n := 1) (m := 509) bounded_dmaBuffer fun dma => ?_
    exact .bind (n := 1) (m := 508) (hlist _ _) fun _ => bounded_bounceXfer _ _ _ _

/-- At most one `nvme_prpl_xfer` for each unit of fuel. -/
theorem bounded_xferBlocks (ns : NvmeNamespace) (sg : BlockDev.Buf) (write : Bool) (cnt : Int)
    (fuel : Nat) :
    ∀ id, Bounded (510 * fuel) (xferBlocks ns sg write cnt fuel id) := by
  induction fuel with
  | zero =>
    intro id
    rw [xferBlocks]
    split
    · exact .halt
    · exact .ret
  | succ fuel ih =>
    intro id
    rw [xferBlocks]
    split
    · rw [Nat.mul_succ, Nat.add_comm]
      refine .bind (bounded_prplXfer _ _ _ _) fun res => ?_
      split
      · exact .ret
      · exact ih _
    · exact .ret

theorem bounded_xferBufs (ns : NvmeNamespace) (bufs : List BlockDev.Buf) :
    Bounded ((510 * fuel + 1) * bufs.length) (xferBufs ns write fuel bufs) := by
  induction bufs with
  | nil => exact .ret
  | cons sg bufs ih =>
    have hrest : ∀ rc : Int, Bounded ((510 * fuel + 1) * bufs.length)
        (if rc < 0 then return -1 else xferBufs ns write fuel bufs) := by
      intro rc
      split
      · exact .ret
      · exact ih
    have hblocks := (bounded_xferBlocks ns sg write (blockCount ns sg) fuel 0).bind hrest
    refine (Prog.Within.bind (bounded_note (.sg sg)) fun _ => hblocks).mono ?_
    rw [List.length_cons, Nat.mul_succ]
    omega

/-- Every path through a block request is bounded. -/
theorem bounded_xfer (ns : NvmeNamespace) (nvmed : Nvmedisk) (req : BlkdevRequest) :
    Bounded ((510 * fuel + 1) * req.bufs.length + 1) (nvmediskXfer ns write fuel nvmed req) := by
  refine .bind (bounded_xferBufs _ _) fun rc => ?_
  split
  · exact .ret
  · exact .bind (n := 1) (m := 0) (bounded_note _) fun _ => .ret

end Nvme
