import NvmeDisk.Requests.Statuses
import NvmeDisk.Transfer.Submitting

/-! Which commands the transfer functions hand over, whatever the device does. The device writes neither
    the submission ring nor the driver's data, so each entry reaches the doorbell as it was filled in. -/

namespace Nvme
open Ring Resume Bytes BlockDev

/-- Anything a device may do that leaves the driver's data and the submission rings alone. -/
structure Foreign (w v : World) : Prop where
  sq : ∀ i, (v.q i).sq = (w.q i).sq
  cq : ∀ i, (v.q i).cq = (w.q i).cq
  sqes : ∀ i, (v.q i).sqes = (w.q i).sqes
  sys : v.sys = w.sys
  log : Outside w v

variable {w v : World} {base : List NvmeSqe} {C : NvmeSqe → Prop} {ns : NvmeNamespace}
  {lba prp1 prp2 buf count : Nat} {write : Bool} {α : Type}

theorem nvmec_foreign {mayFail : Nat → Bool} (h : Nvmec mayFail w v) : Foreign w v := by
  have hsame := fun i => sameDriver_env (.single h) i
  have hsys : v.sys = w.sys := by
    obtain ⟨m, hm⟩ := h
    rcases nvmeMove_cases hm with ⟨i, _, rfl⟩ | ⟨i, k, g, e, n, t, _, _, rfl⟩ |
      ⟨i, k, e, n, t, _, _, rfl⟩ | ⟨i, k, e, n, sf, _, _, rfl⟩ | ⟨i, k, e, n, sf, _, rfl⟩ <;> rfl
  exact ⟨fun i => (hsame i).sq, fun i => (hsame i).cq, fun i => (hsame i).sqes, hsys, nvmec_outside h⟩

/-! ### Commands of one kind -/

/-- The commands handed over since `base` are all `C`. -/
def Hands (C : NvmeSqe → Prop) (base : List NvmeSqe) (w : World) : Prop :=
  ∃ new, handedOver w.log = new ++ base ∧ ∀ e ∈ new, C e

/-- An action that hands no command over. -/
def HandsNone (w v : World) : Prop := handedOver v.log = handedOver w.log

theorem Hands.start (C : NvmeSqe → Prop) (w : World) : Hands C (handedOver w.log) w :=
  ⟨[], rfl, by simp⟩

theorem Hands.none (h : Hands C base w) (hv : HandsNone w v) : Hands C base v := by
  rw [Hands, show handedOver v.log = handedOver w.log from hv]
  exact h

/-- What is new on the log. -/
theorem Hands.new {new : List NvmeSqe} (h : Hands C base w) (hnew : handedOver w.log = new ++ base) :
    ∀ e ∈ new, C e := by
  obtain ⟨new', hlog, hC⟩ := h
  obtain rfl : new = new' := List.append_cancel_right (hnew.symm.trans hlog)
  exact hC

theorem Foreign.handsNone (h : Foreign w v) : HandsNone w v := by
  obtain ⟨new, hnew, hlog⟩ := h.log
  have hnone : handedOver new = [] := by
    refine List.filterMap_eq_nil_iff.mpr fun ev hev => ?_
    obtain ⟨i, n, rfl⟩ := hnew ev hev
    rfl
  rw [HandsNone, hlog, handedOver, List.filterMap_append]
  exact congrArg (· ++ _) hnone

theorem hands_stable (C : NvmeSqe → Prop) (base : List NvmeSqe) : Stable Foreign (Hands C base) :=
  fun _ _ h hr => h.none hr.handsNone

/-- Code that hands over commands of that kind only, whatever the device does. -/
abbrev HandsOnly (C : NvmeSqe → Prop) (base : List NvmeSqe) (p : Drv α) (Q : α → Prop) (w : World) :
    Prop :=
  Wp Foreign (Hands C base) p (fun a v => Q a ∧ Hands C base v) (fun _ => Hands C base) w

theorem hands_ret {a : α} {Q : α → Prop} (hQ : Q a) (h : Hands C base w) :
    HandsOnly C base (.ret a) Q w :=
  wp_ret fun _ he => ⟨(hands_stable C base).env h he, hQ, (hands_stable C base).env h he⟩

/-- A read first. -/
theorem hands_get {β : Type} {g : World → β} {k : β → Drv α} {Q : α → Prop}
    (hk : ∀ b v, Hands C base v → HandsOnly C base (k b) Q v) (h : Hands C base w) :
    HandsOnly C base (Prog.get g >>= k) Q w :=
  wp_get_bind fun v he => have hv := (hands_stable C base).env h he; ⟨hv, hk _ v hv⟩

/-- An update first. -/
theorem hands_modify {f : World → World} {k : Unit → Drv α} {Q : α → Prop}
    (hf : ∀ w, HandsNone w (f w)) (hk : ∀ v, Hands C base v → HandsOnly C base (k ()) Q v)
    (h : Hands C base w) : HandsOnly C base (Prog.modify f >>= k) Q w :=
  wp_modify_bind fun v he =>
    have hv := (hands_stable C base).env h he; ⟨hv, hk _ (hv.none (hf v))⟩

theorem hands_does {p : Drv α} (hp : p.Does HandsNone) (h : Hands C base w) :
    HandsOnly C base p (fun _ => True) w :=
  wp_mono (wp_keeps (hands_stable C base) (hp.keeps fun _ _ hr h => h.none hr) h) (fun _ h => h)
    (fun _ _ _ h => ⟨trivial, h⟩) fun _ _ _ h => h.elim

/-! ### The transfer functions -/

/-- `nvme_io_xfer` hands over its one command. -/
theorem hands_ioXfer (hC : ∀ tail, C (ioSqe ns lba prp1 prp2 count write tail))
    (h : Hands C base w) : HandsOnly C base (nvmeIoXfer ns lba prp1 prp2 count write)
      (fun res => res = count ∨ res = -1) w := by
  rw [nvmeIoXfer]
  split
  · exact hands_modify (fun _ => rfl) (fun _ hv => hands_ret (.inr rfl) hv) h
  refine wp_submit (fun w v hr => ⟨hr.sq .io, hr.sqes .io⟩) (hands_stable C base) (fun _ h => h)
    (fun _ _ hx => hx.none rfl) (fun _ => rfl) (fun v hv => ?_) (fun x hx hentry => ?_) h
  · exact wp_halt fun u hu => have hu' := (hands_stable C base).env hv hu; ⟨hu', hu'⟩
  obtain ⟨tail, hentry⟩ := hentry
  have hcommit : Hands C base (x.commitSqe .io) := by
    obtain ⟨new, hnew, hall⟩ := hx
    refine ⟨_ :: new, congrArg _ hnew, List.forall_mem_cons.mpr ⟨?_, hall⟩⟩
    rw [hentry]
    exact hC tail
  refine wp_seq (hands_does ((aside_waitLoop .io 500).mono fun _ _ ha => ha.entries) hcommit)
    (fun _ _ h => h) fun cqe z hz => ?_
  split
  · exact hands_ret (.inl rfl) hz.2
  · exact hands_ret (.inr rfl) hz.2

theorem hands_bounceXfer
    (hC : ∀ prp1 tail, C (ioSqe ns lba prp1 0 (bounceBlocks ns count) write tail))
    (h : Hands C base w) : HandsOnly C base (nvmeBounceXfer ns lba buf count write)
      (fun res => res = bounceBlocks ns count ∨ res = -1) w := by
  refine hands_get (fun dma u hu => ?_) h
  cases write with
  | true =>
    refine hands_modify (fun _ => rfl) (fun x hx => ?_) hu
    refine wp_seq (hands_ioXfer (hC dma) hx) (fun _ _ h => h) fun res y hy => ?_
    rw [if_neg (by simp)]
    exact hands_ret hy.1 hy.2
  | false =>
    refine wp_seq (hands_ioXfer (hC dma) hu) (fun _ _ h => h) fun res y hy => ?_
    split
    · exact hands_modify (fun _ => rfl) (fun _ hz => hands_ret hy.1 hz) hy.2
    · exact hands_ret hy.1 hy.2

/-- HANDED RULE: a call of `nvme_prpl_xfer` hands over commands for its own blocks only, and returns
    their number or -1. -/
theorem hands_prplXfer
    (hC : ∀ prp1 prp2 tail, C (ioSqe ns lba prp1 prp2 (movedBlocks ns buf count) write tail))
    (h : Hands C base w) : HandsOnly C base (nvmePrplXfer ns lba buf count write)
      (fun res => res = movedBlocks ns buf count ∨ res = -1) w := by
  simp only [nvmePrplXfer, movedBlocks] at hC ⊢
  rcases hp : prplPath ns buf (clampCount ns count) with _ | _ | l | l <;> rw [hp] at hC
  · exact hands_ioXfer (hC _ _) h
  · exact hands_ioXfer (hC _ _) h
  · refine hands_get (fun dma v hv => ?_) h
    exact hands_modify (fun _ => rfl) (fun u hu => hands_ioXfer (hC _ _) hu) hv
  · refine hands_get (fun dma v hv => ?_) h
    exact hands_modify (fun _ => rfl) (fun u hu => hands_bounceXfer (fun _ => hC _ _) hu) hv

end Nvme
