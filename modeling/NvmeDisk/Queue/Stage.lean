import NvmeDisk.Model.Controller

/-! The one-command discipline on a queue pair. Between commands the pair is `Idle`: driver and
    controller agree on every index, and the controller has nothing to do. After a commit it is
    `Outstanding` at some `Stage` of the controller's work. Both are counted by the completions `D`
    posted so far: command `n = D.length` sits in slot `n % L`, its completion in slot `n % C`. Each
    queue operation and each controller step moves between these states; what the code compares
    (the tail with `head + 1`, the phase tag with the phase) is decided by them. -/

namespace Nvme
open Ring

variable {i : QId} {L C : Nat} {D : List NvmeCqe} {e : NvmeSqe} {q : QPair}

/-- Ring lengths and masks of a queue pair, as the controller was told them. -/
structure Shape (L C : Nat) (q : QPair) : Prop where
  sqMask : q.sq.common.mask = L - 1
  cqMask : q.cq.common.mask = C - 1
  sqLen : q.ctl.sqLen = L
  cqLen : q.ctl.cqLen = C

/-- The phase tags of the completion ring, as the driver reads them. -/
def QPair.tags (q : QPair) (j : Nat) : Bool := (q.cqes j).tag

/-- No command outstanding, `D` completions behind. -/
structure Idle (L C : Nat) (D : List NvmeCqe) (q : QPair) : Prop extends Shape L C q where
  tail : q.sq.tail = D.length % L
  head : q.sq.head = D.length % L
  sqDbl : q.ctl.tail = D.length % L
  taken : q.ctl.taken = D.length
  flight : q.ctl.flight = []
  done : q.ctl.done = D
  cqHead : q.cq.head = D.length % C
  cqPhase : q.cq.phase = phase C D.length
  cqDbl : q.ctl.head = D.length % C
  fresh : Fresh C D.length q.tags

/-- How far the controller is with the outstanding command. -/
inductive Stage where
  | queued
  | flying (sf : Option Nat)
  | posted (sf : Nat)

/-- The completion entry for command `D.length`. -/
def cqeOf (i : QId) (L C : Nat) (D : List NvmeCqe) (e : NvmeSqe) (sf : Nat) : NvmeCqe where
  cdw0 := 0
  res0 := 0
  sqHead := (D.length + 1) % L
  sqId := i.sqId
  cid := e.cid
  status := 2 * sf + (phase C D.length).toNat

@[simp] theorem cqeOf_sf (i : QId) (L C : Nat) (D : List NvmeCqe) (e : NvmeSqe) (sf : Nat) :
    (cqeOf i L C D e sf).sf = sf := by
  have := Bool.toNat_lt (phase C D.length)
  simp only [NvmeCqe.sf, cqeOf]
  omega

theorem cqeOf_tag (i : QId) (L C : Nat) (D : List NvmeCqe) (e : NvmeSqe) (sf : Nat) :
    (cqeOf i L C D e sf).tag = phase C D.length := by
  rw [tag_eq_phase _ (Nat.mod_lt _ (by decide)), NvmeCqe.phase, cqeOf]
  cases phase C D.length <;> simp

/-- What the controller's side and the rings look like at a stage. -/
def Stage.At (i : QId) (L C : Nat) (D : List NvmeCqe) (e : NvmeSqe) (q : QPair) : Stage → Prop
  | .queued => q.ctl.taken = D.length ∧ q.ctl.flight = [] ∧ q.ctl.done = D ∧
      Fresh C D.length q.tags ∧ q.sqes (D.length % L) = e
  | .flying sf => q.ctl.taken = D.length + 1 ∧ q.ctl.flight = [⟨e, D.length, sf⟩] ∧
      q.ctl.done = D ∧ Fresh C D.length q.tags
  | .posted sf => q.ctl.taken = D.length + 1 ∧ q.ctl.flight = [] ∧
      q.ctl.done = D ++ [cqeOf i L C D e sf] ∧ Fresh C (D.length + 1) q.tags ∧
      q.cqes (D.length % C) = cqeOf i L C D e sf

/-- Command `D.length` is committed and its completion not consumed. -/
structure Outstanding (i : QId) (L C : Nat) (D : List NvmeCqe) (e : NvmeSqe) (s : Stage)
    (q : QPair) : Prop extends Shape L C q where
  tail : q.sq.tail = (D.length + 1) % L
  head : q.sq.head = D.length % L
  sqDbl : q.ctl.tail = (D.length + 1) % L
  cqHead : q.cq.head = D.length % C
  cqPhase : q.cq.phase = phase C D.length
  cqDbl : q.ctl.head = D.length % C
  stage : s.At i L C D e q

theorem Idle.noWork (h : Idle L C D q) : q.ctl.NoWork :=
  ⟨by rw [h.taken, h.sqLen, h.sqDbl], h.flight⟩

/-! ### Driver operations -/

/-- On an idle queue `nvme_get_next_sqe` hands out the slot at the tail. -/
theorem Idle.getNextSqe [hL : Fact (Pow2 L)] (h : Idle L C D q) (opc metadata data data2 : Nat) :
    nvmeGetNextSqe q opc metadata data data2 = (some (D.length % L), { q with
      sqes := Function.update q.sqes (D.length % L)
        (freshSqe (D.length % L) opc metadata data data2) }) := by
  have hne : (q.sq.head + 1) &&& q.sq.common.mask ≠ q.sq.tail := by
    rw [h.head, h.tail, h.sqMask, hL.out.advance]
    exact hL.out.succ_mod_ne _
  rw [nvmeGetNextSqe, if_neg hne, h.tail]

/-- With a command outstanding `nvme_get_next_sqe` returns `NULL`. -/
theorem Outstanding.getNextSqe [hL : Fact (Pow2 L)] {s : Stage} (h : Outstanding i L C D e s q)
    (opc metadata data data2 : Nat) :
    nvmeGetNextSqe q opc metadata data data2 = (none, q) := by
  rw [nvmeGetNextSqe, if_pos (by rw [h.head, h.tail, h.sqMask, hL.out.advance])]

/-- Ring entries are no part of being idle. -/
theorem Idle.setSqes (h : Idle L C D q) (sqes : Nat → NvmeSqe) : Idle L C D { q with sqes := sqes } :=
  { h with }

theorem Idle.commit [hL : Fact (Pow2 L)] (h : Idle L C D q) :
    Outstanding i L C D (q.sqes (D.length % L)) .queued (nvmeCommitSqe q) := by
  have htail : (q.sq.tail + 1) &&& q.sq.common.mask = (D.length + 1) % L := by
    rw [h.tail, h.sqMask, hL.out.advance]
  exact { h with
    tail := htail
    sqDbl := htail
    stage := ⟨h.taken, h.flight, h.done, h.fresh, rfl⟩ }

/-- The queue shows a ready entry exactly once the completion is posted. -/
theorem Outstanding.poll [hC : Fact (Pow2 C)] {s : Stage} (h : Outstanding i L C D e s q) :
    nvmePollCq q = match s with
      | .posted _ => true
      | _ => false := by
  have hstale : Fresh C D.length q.tags → nvmePollCq q = false := by
    intro hf
    have := hf.stale hC.out.pos
    rw [nvmePollCq, h.cqHead, h.cqPhase]
    rw [QPair.tags] at this
    rw [this]
    cases phase C D.length <;> rfl
  cases s with
  | queued => exact hstale h.stage.2.2.2.1
  | flying sf => exact hstale h.stage.2.2.2
  | posted sf =>
    rw [nvmePollCq, h.cqHead, h.cqPhase, h.stage.2.2.2.2, cqeOf_tag, beq_self_eq_true]

/-- Consuming the completion brings the pair back to idle; the entry is still in its slot. -/
theorem Outstanding.advance [hC : Fact (Pow2 C)] {sf : Nat}
    (h : Outstanding i L C D e (.posted sf) q) :
    Idle L C (D ++ [cqeOf i L C D e sf]) (nvmeAdvanceCq q) := by
  obtain ⟨htaken, hflight, hdone, hfresh, hslot⟩ := h.stage
  have hlen : (D ++ [cqeOf i L C D e sf]).length = D.length + 1 := by simp
  have hhead : (q.cq.head + 1) &&& q.cq.common.mask = (D.length + 1) % C := by
    rw [h.cqHead, h.cqMask, hC.out.advance]
  exact { h with
    tail := by rw [hlen]; exact h.tail
    head := by
      rw [hlen]
      simp only [nvmeAdvanceCq, h.cqHead, hslot, cqeOf]
    sqDbl := by rw [hlen]; exact h.sqDbl
    taken := by rw [hlen]; exact htaken
    flight := hflight
    done := hdone
    cqHead := by rw [hlen]; exact hhead
    cqPhase := by
      rw [hlen, phase_succ hC.out.two_le]
      simp only [nvmeAdvanceCq]
      rw [hhead, h.cqHead, h.cqPhase]
    cqDbl := by rw [hlen]; exact hhead
    fresh := by rw [hlen]; exact hfresh }

/-! ### Controller steps -/

theorem Outstanding.fetch (h : Outstanding i L C D e .queued q) :
    Outstanding i L C D e (.flying none) q.fetch := by
  obtain ⟨htaken, hflight, hdone, hfresh, hslot⟩ := h.stage
  exact { h with
    stage := by
      refine ⟨by simp [QPair.fetch, htaken], ?_, hdone, hfresh⟩
      simp [QPair.fetch, hflight, htaken, h.sqLen, hslot] }

theorem Outstanding.settle (h : Outstanding i L C D e (.flying none) q) (sf : Nat) :
    Outstanding i L C D e (.flying (some sf)) (q.settle 0 ⟨e, D.length, none⟩ sf) := by
  obtain ⟨htaken, hflight, hdone, hfresh⟩ := h.stage
  exact { h with
    stage := ⟨htaken, by simp [QPair.settle, hflight], hdone, hfresh⟩ }

theorem Outstanding.post [hC : Fact (Pow2 C)] {sf : Nat}
    (h : Outstanding i L C D e (.flying (some sf)) q) :
    Outstanding i L C D e (.posted sf) (q.post i 0 ⟨e, D.length, some sf⟩ sf) := by
  obtain ⟨htaken, hflight, hdone, hfresh⟩ := h.stage
  have hc : q.ctl.completion i e sf = cqeOf i L C D e sf := by
    simp only [CtlQueue.completion, cqeOf, htaken, h.sqLen, h.cqLen, hdone]
  have hslot : (q.post i 0 ⟨e, D.length, some sf⟩ sf).cqes (D.length % C) = cqeOf i L C D e sf := by
    simp [QPair.post, hdone, h.cqLen, hc]
  exact { h with
    stage := by
      refine ⟨htaken, by simp [QPair.post, hflight], by simp [QPair.post, hdone, hc], ?_, hslot⟩
      refine hfresh.step hC.out.two_le ?_ ?_
      · rw [QPair.tags, hslot, cqeOf_tag]
      · intro j hj
        simp [QPair.tags, QPair.post, hdone, h.cqLen, Function.update_of_ne hj] }

/-- Once the completion is posted the controller is done with the queue. -/
theorem Outstanding.noWork {sf : Nat} (h : Outstanding i L C D e (.posted sf) q) :
    q.ctl.NoWork := by
  obtain ⟨htaken, hflight, _⟩ := h.stage
  exact ⟨by rw [htaken, h.sqLen, h.sqDbl], hflight⟩

end Nvme
