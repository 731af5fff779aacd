import NvmeDisk.Queue.Wait

/-! A controller that takes a command up at once: from every idle queue the command can be submitted,
    completed and taken back before the wait for it gives up. -/

namespace Nvme
open Ring Resume

/-- The controllers whose completions all say success: status code 0 of type 0, whatever the flags
    beside it. -/
def allSucceed : Nat → Bool := fun sf => sf % 2048 == 0

theorem allSucceed_low {sf : Nat} (h : OkStatus allSucceed sf) : sf % 256 = 0 := by
  rcases h with rfl | ⟨hm, _, _⟩
  · rfl
  · have : sf % 2048 = 0 := by simpa [allSucceed] using hm
    omega

variable {mayFail : Nat → Bool} {w : World} {i : QId} {L C sf : Nat} {D : List NvmeCqe} {e : NvmeSqe}

/-- The controller fetches the command, and completes it with a status it may report. -/
theorem Outstanding.served [hL : Fact (Pow2 L)] [hC : Fact (Pow2 C)]
    (h : Outstanding i L C D e .queued (w.q i)) (hm : mayFail sf = true) (h0 : sf ≠ 0)
    (hlt : sf < 32768) :
    ∃ v, Env (Nvmec mayFail) w v ∧ Outstanding i L C D e (.posted sf) (v.q i) := by
  have htake : (w.q i).ctl.taken % (w.q i).ctl.sqLen ≠ (w.q i).ctl.tail := by
    rw [h.stage.1, h.sqLen, h.sqDbl]
    exact (hL.out.succ_mod_ne _).symm
  let w1 := w.setQ i (w.q i).fetch
  have h1 : Outstanding i L C D e (.flying none) (w1.q i) := by simpa [w1] using h.fetch
  have m1 : nvmeMove mayFail (.fetch i) w = some w1 := by simp only [nvmeMove, if_neg htake, w1]
  let w2 := w1.setQ i ((w1.q i).settle 0 ⟨e, D.length, none⟩ sf)
  have h2 : Outstanding i L C D e (.flying (some sf)) (w2.q i) := by simpa [w2] using h1.settle sf
  have m2 : nvmeMove mayFail (.fail i 0 sf) w1 = some w2 := by
    have hok : mayFail sf = true ∧ sf ≠ 0 ∧ sf < 32768 := ⟨hm, h0, hlt⟩
    simp only [nvmeMove, h1.stage.2.1, List.getElem?_cons_zero, if_pos hok, w2]
  have hroom : ((w2.q i).ctl.done.length + 1) % (w2.q i).ctl.cqLen ≠ (w2.q i).ctl.head := by
    rw [h2.stage.2.2.1, h2.cqLen, h2.cqDbl]
    exact hC.out.succ_mod_ne _
  let w3 := w2.setQ i ((w2.q i).post i 0 ⟨e, D.length, some sf⟩ sf)
  have h3 : Outstanding i L C D e (.posted sf) (w3.q i) := by simpa [w3] using h2.post
  have m3 : nvmeMove mayFail (.post i 0) w2 = some w3 := by
    simp only [nvmeMove, h2.stage.2.1, List.getElem?_cons_zero, if_neg hroom, w3]
  exact ⟨w3, .tail (.tail (.single ⟨_, m1⟩) ⟨_, m2⟩) ⟨_, m3⟩, h3⟩

/-- A posted completion is taken by the first poll. -/
theorem Outstanding.steps_wait [Fact (Pow2 C)] (R : World → World → Prop)
    (h : Outstanding i L C D e (.posted sf) (w.q i)) :
    ∃ v, Steps R w (nvmeWait i) v (.ret (cqeOf i L C D e sf)) := by
  have hpoll : nvmePollCq (w.q i) = true := h.poll
  have hslot : ((w.advanceCq i).q i).cqes (w.q i).cq.head = cqeOf i L C D e sf := by
    rw [h.cqHead, World.advanceCq, World.note_q, World.setQ_q_same]
    exact h.stage.2.2.2.2
  refine ⟨(w.advanceCq i).copyCqe i (cqeOf i L C D e sf), ?_⟩
  rw [nvmeWait, show 500 = 499 + 1 from rfl, nvmeWaitLoop]
  refine .get_bind ?_
  rw [if_pos hpoll]
  refine .act_bind ?_
  simp only [hpoll, if_true]
  refine .first ?_
  simp only [hslot]
  exact .refl

end Nvme
