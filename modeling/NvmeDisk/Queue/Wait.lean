import NvmeDisk.Model.Driver
import NvmeDisk.Queue.Moves

/-! `nvme_wait` against a controller that follows NVMe. From the commit on, every world the
    controller can make is `Underway` at some stage, and the wait ends in one of two ways: it `Took`
    the completion of the very command, or it `GaveUp` with the command still underway. Whatever the
    other queue pair does meanwhile, this one does not notice; where it has no work, memory and disk
    change only as the command demands. -/

namespace Nvme
open Ring Resume BlockDev

section
variable (mayFail : Nat → Bool) (w₀ : World) (i : QId) (L C : Nat) (D : List NvmeCqe) (e : NvmeSqe)

/-- Command `e`, committed in `w₀`, is not consumed yet; `base` is the log up to the driver's last
    own entry. -/
structure Underway (base : List Event) (s : Stage) (w : World) : Prop where
  out : Outstanding i L C D e s (w.q i)
  sys : w.sys = w₀.sys
  reg : w.reg = w₀.reg
  dev : w.dev = w₀.dev
  log : Logged i (some D.length) base w.log
  status : s.Status mayFail
  calm : Calm i w₀ → (∀ j, j ≠ i → w.q j = w₀.q j) ∧ s.Data w₀.dev i e w₀.store w.store

/-- The driver has consumed the completion of `e`, status field `sf`. -/
structure Finished (base : List Event) (sf : Nat) (w : World) : Prop where
  idle : Idle L C (D ++ [cqeOf i L C D e sf]) (w.q i)
  slot : (w.q i).cqes (D.length % C) = cqeOf i L C D e sf
  sys : w.sys = w₀.sys
  reg : w.reg = w₀.reg
  dev : w.dev = w₀.dev
  log : Logged i none base w.log
  status : OkStatus mayFail sf
  calm : Calm i w₀ → (∀ j, j ≠ i → w.q j = w₀.q j) ∧ Ended w₀.dev i e w₀.store sf w.store

/-- The doorbell write of the completion of `e`. -/
def consumedOf (i : QId) (L C : Nat) (D : List NvmeCqe) (e : NvmeSqe) (sf : Nat) : Event :=
  .consumed i ((D.length + 1) % C) (cqeOf i L C D e sf)

/-- Between the completion doorbell and the copy of the entry. -/
def Taking (sf : Nat) (w : World) : Prop :=
  ∃ l, Logged i (some D.length) w₀.log l ∧
    Finished mayFail w₀ i L C D e (consumedOf i L C D e sf :: l) sf w

/-- `nvme_wait` took the completion of `e`. -/
def Took (sf : Nat) (w : World) : Prop :=
  ∃ l l', Logged i (some D.length) w₀.log l ∧ Logged i none (consumedOf i L C D e sf :: l) l' ∧
    Finished mayFail w₀ i L C D e (.copied i (cqeOf i L C D e sf) :: l') sf w

/-- `nvme_wait` gave up on `e`. -/
def GaveUp (w : World) : Prop :=
  ∃ s l, Logged i (some D.length) w₀.log l ∧
    Underway mayFail w₀ i L C D e (.timeout i :: l) s w

/-- Every world from the commit of `e` to the end of its wait, and after it until the driver's next
    action. -/
inductive Waiting (w : World) : Prop where
  | underway (s) : Underway mayFail w₀ i L C D e w₀.log s w → Waiting w
  | taking (sf) : Taking mayFail w₀ i L C D e sf w → Waiting w
  | took (sf) : Took mayFail w₀ i L C D e sf w → Waiting w
  | gaveUp : GaveUp mayFail w₀ i L C D e w → Waiting w

/-- The end of a wait: the command's own completion, or the error entry of a timeout. -/
def WaitPost (c : NvmeCqe) (w : World) : Prop :=
  (∃ sf, c = cqeOf i L C D e sf ∧ Took mayFail w₀ i L C D e sf w) ∨
    (c = nvmeErrorCqe ∧ GaveUp mayFail w₀ i L C D e w)

end

variable {mayFail : Nat → Bool} {w₀ w v : World} {i : QId} {L C : Nat} {D : List NvmeCqe}
  {e : NvmeSqe} {base : List Event} {s : Stage} {sf : Nat} {I : World → Prop}

/-! ### The controller's moves -/

theorem calm_of_other (hc : Calm i w₀) (h : ∀ j, j ≠ i → w.q j = w₀.q j) : Calm i w :=
  fun j hj => by rw [h j hj]; exact hc j hj

/-- One controller move keeps the command underway. -/
theorem Underway.move [Fact (Pow2 C)] (h : Underway mayFail w₀ i L C D e base s w) {m : Move}
    (hm : nvmeMove mayFail m w = some v) :
    ∃ s', Underway mayFail w₀ i L C D e base s' v := by
  rcases h.out.move hm with hel | ⟨s', hout, hp⟩
  · refine ⟨s, ?_⟩
    exact {
      out := by rw [hel.q]; exact h.out
      sys := hel.sys.trans h.sys
      reg := hel.reg.trans h.reg
      dev := hel.dev.trans h.dev
      log := h.log.trans (hel.log.weaken _)
      status := h.status
      calm := fun hc => absurd (calm_of_other hc (h.calm hc).1) hel.busy }
  · refine ⟨s', ?_⟩
    exact {
      out := hout
      sys := hp.sys.trans h.sys
      reg := hp.reg.trans h.reg
      dev := hp.dev.trans h.dev
      log := h.log.trans hp.log
      status := hp.status h.status
      calm := fun hc => by
        obtain ⟨hq, hd⟩ := h.calm hc
        refine ⟨fun j hj => (hp.other j hj).trans (hq j hj), ?_⟩
        rw [← h.dev] at hd ⊢
        exact hp.data _ hd }

theorem Underway.env [Fact (Pow2 C)] (h : Underway mayFail w₀ i L C D e base s w)
    (he : Env (Nvmec mayFail) w v) : ∃ s', Underway mayFail w₀ i L C D e base s' v := by
  induction he with
  | refl => exact ⟨s, h⟩
  | tail _ hr ih =>
    obtain ⟨s', h'⟩ := ih
    obtain ⟨m, hm⟩ := hr
    exact h'.move hm

theorem GaveUp.env [Fact (Pow2 C)] (h : GaveUp mayFail w₀ i L C D e w) (he : Env (Nvmec mayFail) w v) :
    GaveUp mayFail w₀ i L C D e v := by
  obtain ⟨s, l, hl, hu⟩ := h
  obtain ⟨s', hu'⟩ := hu.env he
  exact ⟨s', l, hl, hu'⟩

theorem Finished.env (h : Finished mayFail w₀ i L C D e base sf w)
    (he : Env (Nvmec mayFail) w v) : Finished mayFail w₀ i L C D e base sf v := by
  have ha := h.idle.noWork.env he
  exact {
    idle := by rw [ha.q]; exact h.idle
    slot := by rw [ha.q]; exact h.slot
    sys := ha.sys.trans h.sys
    reg := ha.reg.trans h.reg
    dev := ha.dev.trans h.dev
    log := h.log.trans ha.log
    status := h.status
    calm := fun hc => by
      rw [ha.calm (calm_of_other hc (h.calm hc).1)]
      exact h.calm hc }

theorem Taking.env (h : Taking mayFail w₀ i L C D e sf w) (he : Env (Nvmec mayFail) w v) :
    Taking mayFail w₀ i L C D e sf v := by
  obtain ⟨l, hl, hf⟩ := h
  exact ⟨l, hl, hf.env he⟩

theorem Took.env (h : Took mayFail w₀ i L C D e sf w) (he : Env (Nvmec mayFail) w v) :
    Took mayFail w₀ i L C D e sf v := by
  obtain ⟨l, l', hl, hl', hf⟩ := h
  exact ⟨l, l', hl, hl', hf.env he⟩

/-! ### The driver's steps -/

/-- Consuming a posted completion. -/
theorem Underway.advanced [Fact (Pow2 C)] (h : Underway mayFail w₀ i L C D e w₀.log (.posted sf) w) :
    Taking mayFail w₀ i L C D e sf (w.advanceCq i) := by
  have hslot := h.out.stage.2.2.2.2
  have hidle := h.out.advance
  refine ⟨w.log, h.log, ?_⟩
  exact { h with
    idle := by simpa [World.advanceCq] using hidle
    slot := by
      simp only [World.advanceCq, World.note_q, World.setQ_q_same]
      exact hslot
    log := by
      have hc : (nvmeAdvanceCq (w.q i)).cq.head = (D.length + 1) % C := by simpa using hidle.cqHead
      simp only [World.advanceCq, World.note_log, World.setQ_log, hc, h.out.cqHead, hslot]
      exact .refl ..
    status := h.status sf rfl
    calm := fun hc => by
      obtain ⟨hq, hd⟩ := h.calm hc
      refine ⟨fun j hj => ?_, hd⟩
      rw [World.advanceCq, World.note_q, World.setQ_q_ne _ _ hj, hq j hj] }

theorem Taking.copied (h : Taking mayFail w₀ i L C D e sf w) :
    Took mayFail w₀ i L C D e sf (w.copyCqe i (cqeOf i L C D e sf)) := by
  obtain ⟨l, hl, hf⟩ := h
  exact ⟨l, w.log, hl, hf.log, { hf with log := .refl .. }⟩

theorem Underway.timedOut (h : Underway mayFail w₀ i L C D e w₀.log s w) :
    GaveUp mayFail w₀ i L C D e (w.note (.timeout i)) :=
  ⟨s, w.log, h.log, { h with log := .refl .. }⟩

/-- `nvme_consume_cqe` on a posted completion. -/
theorem wp_consume [Fact (Pow2 C)] (hI : ∀ v, Waiting mayFail w₀ i L C D e v → I v)
    (h : Underway mayFail w₀ i L C D e w₀.log (.posted sf) w) :
    Wp (Nvmec mayFail) I (nvmeConsumeCqe i) (WaitPost mayFail w₀ i L C D e) (fun _ _ => False) w := by
  -- the entry may be polled at any later time: it stays posted until the driver moves
  have hposted : ∀ v, Env (Nvmec mayFail) w v →
      Underway mayFail w₀ i L C D e w₀.log (.posted sf) v := by
    intro v he
    have ha := h.out.noWork.env he
    exact {
      out := by rw [ha.q]; exact h.out
      sys := ha.sys.trans h.sys
      reg := ha.reg.trans h.reg
      dev := ha.dev.trans h.dev
      log := h.log.trans (ha.log.weaken _)
      status := h.status
      calm := fun hc => by
        rw [ha.calm (calm_of_other hc (h.calm hc).1)]
        exact h.calm hc }
  refine wp_atom fun v he => ⟨hI v (.underway _ (hposted v he)), ?_⟩
  have hv := hposted v he
  have hpoll : nvmePollCq (v.q i) = true := hv.out.poll
  simp only [hpoll, if_true]
  refine wp_atom fun u hu => ?_
  have htaking := hv.advanced.env hu
  refine ⟨hI u (.taking sf htaking), ?_⟩
  have hcopy : (u.q i).cqes (v.q i).cq.head = cqeOf i L C D e sf := by
    obtain ⟨_, _, hf⟩ := htaking
    rw [hv.out.cqHead]
    exact hf.slot
  simp only [hcopy]
  refine wp_ret fun x hx => ?_
  have htook := htaking.copied.env hx
  exact ⟨hI x (.took sf htook), .inl ⟨sf, rfl, htook⟩⟩

/-- Every poll of `nvme_wait` finds the command underway; a ready entry is its completion. -/
theorem wp_waitLoop [Fact (Pow2 C)] (hI : ∀ v, Waiting mayFail w₀ i L C D e v → I v) :
    ∀ (k : Nat) (s : Stage) (w : World), Underway mayFail w₀ i L C D e w₀.log s w →
    Wp (Nvmec mayFail) I (nvmeWaitLoop i k) (WaitPost mayFail w₀ i L C D e) (fun _ _ => False) w
  | 0, s, w, h => by
    refine wp_modify_bind fun v he => ?_
    obtain ⟨s', h'⟩ := h.env he
    refine ⟨hI v (.underway s' h'), wp_ret fun u hu => ?_⟩
    have hgave := h'.timedOut.env hu
    exact ⟨hI u (.gaveUp hgave), .inr ⟨rfl, hgave⟩⟩
  | k + 1, s, w, h => by
    refine wp_get_bind fun v he => ?_
    obtain ⟨s', h'⟩ := h.env he
    refine ⟨hI v (.underway s' h'), ?_⟩
    rw [h'.out.poll]
    cases s' with
    | queued => exact wp_waitLoop hI k _ v h'
    | flying sf => exact wp_waitLoop hI k _ v h'
    | posted sf => exact wp_consume hI h'

theorem wp_wait [Fact (Pow2 C)] (hI : ∀ v, Waiting mayFail w₀ i L C D e v → I v)
    (h : Underway mayFail w₀ i L C D e w₀.log s w) :
    Wp (Nvmec mayFail) I (nvmeWait i) (WaitPost mayFail w₀ i L C D e) (fun _ _ => False) w :=
  wp_waitLoop hI 500 s w h

end Nvme
