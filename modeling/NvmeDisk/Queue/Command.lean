import NvmeDisk.Queue.Ops
import NvmeDisk.Queue.Wait

/-! One command from start to end: get an entry, fill it in, commit it and wait. On an idle queue the
    entry handed to the controller is the one filled in, and the wait ends as `WaitPost` says; on a
    queue with a command outstanding there is no entry to be had. -/

namespace Nvme
open Ring Resume BlockDev

section
variable (i : QId) (L C : Nat) (D : List NvmeCqe) (e : NvmeSqe)

/-- Since `w` the driver changed at most ring entries the controller does not look at. -/
structure Prepared (w v : World) : Prop where
  idle : Idle L C D (v.q i)
  sys : v.sys = w.sys
  reg : v.reg = w.reg
  dev : v.dev = w.dev
  log : Logged i none w.log v.log
  calm : Calm i w → (∀ j, j ≠ i → v.q j = w.q j) ∧ v.store = w.store

/-- `w₀` is the world right after the commit of `e`, prepared from `w` on. -/
structure Submitted (w w₀ : World) : Prop where
  out : Outstanding i L C D e .queued (w₀.q i)
  sys : w₀.sys = w.sys
  reg : w₀.reg = w.reg
  dev : w₀.dev = w.dev
  log : ∃ l, Logged i none w.log l ∧
    w₀.log = .commit i (D.length % L) e ((D.length + 1) % L) :: l
  calm : Calm i w → (∀ j, j ≠ i → w₀.q j = w.q j) ∧ w₀.store = w.store

/-- Every world of one command's life. -/
inductive Exchange (mayFail : Nat → Bool) (w v : World) : Prop where
  | prepared : Prepared i L C D w v → Exchange mayFail w v
  | waiting (w₀) : Submitted i L C D e w w₀ → Waiting mayFail w₀ i L C D e v → Exchange mayFail w v

/-- The command is over: its completion is taken, or the wait gave up. -/
def CommandPost (mayFail : Nat → Bool) (w : World) (c : NvmeCqe) (v : World) : Prop :=
  ∃ w₀, Submitted i L C D e w w₀ ∧ WaitPost mayFail w₀ i L C D e c v

end

variable {mayFail : Nat → Bool} {w w₀ v u : World} {i : QId} {L C : Nat} {D : List NvmeCqe}
  {e : NvmeSqe} {s : Stage} {I : World → Prop} {α : Type} {Q : α → World → Prop}
  {X : Halt → World → Prop}

theorem Prepared.refl (h : Idle L C D (w.q i)) : Prepared i L C D w w :=
  ⟨h, rfl, rfl, rfl, .refl .., fun _ => ⟨fun _ _ => rfl, rfl⟩⟩

theorem Prepared.env (h : Prepared i L C D w v) (he : Env (Nvmec mayFail) v u) :
    Prepared i L C D w u := by
  have ha := h.idle.noWork.env he
  exact {
    idle := by rw [ha.q]; exact h.idle
    sys := ha.sys.trans h.sys
    reg := ha.reg.trans h.reg
    dev := ha.dev.trans h.dev
    log := h.log.trans ha.log
    calm := fun hc => by
      rw [ha.calm (calm_of_other hc (h.calm hc).1)]
      exact h.calm hc }

/-- Writing ring entries is preparing. -/
theorem Prepared.setSqes (h : Prepared i L C D w v) (sqes : Nat → NvmeSqe) :
    Prepared i L C D w (v.setQ i { v.q i with sqes := sqes }) where
  idle := by rw [World.setQ_q_same]; exact h.idle.setSqes sqes
  sys := h.sys
  reg := h.reg
  dev := h.dev
  log := h.log
  calm hc := ⟨fun j hj => by rw [World.setQ_q_ne _ _ hj]; exact (h.calm hc).1 j hj, (h.calm hc).2⟩

theorem Prepared.commit [Fact (Pow2 L)] (h : Prepared i L C D w v) :
    Submitted i L C D ((v.q i).sqes (D.length % L)) w (v.commitSqe i) where
  out := by
    simp only [World.commitSqe, World.note_q, World.setQ_q_same]
    exact h.idle.commit
  sys := h.sys
  reg := h.reg
  dev := h.dev
  log := by
    refine ⟨v.log, h.log, ?_⟩
    have htail : (nvmeCommitSqe (v.q i)).sq.tail =
        (D.length + 1) % L := (h.idle.commit (i := i)).tail
    simp only [World.commitSqe, World.note_log, World.setQ_log, h.idle.tail, htail]
  calm hc := ⟨fun j hj => by
    rw [World.commitSqe, World.note_q, World.setQ_q_ne _ _ hj]
    exact (h.calm hc).1 j hj, (h.calm hc).2⟩

theorem Submitted.underway (h : Submitted i L C D e w w₀) :
    Underway mayFail w₀ i L C D e w₀.log .queued w₀ where
  out := h.out
  sys := rfl
  reg := rfl
  dev := rfl
  log := .refl ..
  status := fun _ hsf => by cases hsf
  calm := fun _ => ⟨fun _ _ => rfl, rfl⟩

theorem Submitted.calmWorld (h : Submitted i L C D e w w₀) (hc : Calm i w) : Calm i w₀ :=
  calm_of_other hc (h.calm hc).1

/-- COMMAND RULE: on an idle queue the command filled in is the one committed and waited for. What
    the caller does about a missing entry (`f none`) does not matter. -/
theorem wp_command [Fact (Pow2 L)] [Fact (Pow2 C)]
    {opc metadata data data2 nsid dword10 dword11 dword12 : Nat}
    {f : Option Nat → Drv α} {k : NvmeCqe → Drv α} (hidle : Idle L C D (w.q i))
    (hf : ∀ slot, f (some slot) = do
      fillIn i (some slot) nsid dword10 dword11 dword12
      commitSqe i
      let cqe ← nvmeWait i
      k cqe)
    (he : e = cmdSqe (D.length % L) opc metadata data data2 nsid dword10 dword11 dword12)
    (hI : ∀ v, Exchange i L C D e mayFail w v → I v)
    (hk : ∀ c v, CommandPost i L C D e mayFail w c v → Wp (Nvmec mayFail) I (k c) Q X v) :
    Wp (Nvmec mayFail) I (getNextSqe i opc metadata data data2 >>= f) Q X w := by
  refine wp_atom fun v hv => ?_
  have hp := (Prepared.refl hidle).env hv
  refine ⟨hI v (.prepared hp), ?_⟩
  simp only [hp.idle.getNextSqe]
  change Wp _ _ (f (some (D.length % L))) _ _ _
  rw [hf]
  -- the entry handed out is filled in, whatever happened meanwhile elsewhere
  refine wp_modify_bind fun u hu => ?_
  have hp1 := hp.setSqes (Function.update (v.q i).sqes (D.length % L)
    (freshSqe (D.length % L) opc metadata data data2))
  have hq1 := (hp1.idle.noWork.env hu).q
  have hp2 := hp1.env hu
  refine ⟨hI u (.prepared hp2), ?_⟩
  have hfill : fillSqe (u.q i) (D.length % L) nsid dword10 dword11 dword12 =
      { u.q i with sqes := Function.update (v.q i).sqes (D.length % L) e } := by
    rw [he, hq1]
    simp [fillSqe, cmdSqe]
  rw [hfill]
  refine wp_modify_bind fun x hx => ?_
  have hp3 := hp2.setSqes (Function.update (v.q i).sqes (D.length % L) e)
  have hq3 := (hp3.idle.noWork.env hx).q
  have hp4 := hp3.env hx
  refine ⟨hI x (.prepared hp4), ?_⟩
  have hentry : (x.q i).sqes (D.length % L) = e := by
    rw [hq3]
    simp
  have hsub := hp4.commit
  rw [hentry] at hsub
  refine wp_bind (wp_mono (wp_wait (fun y hy => hI y (.waiting _ hsub hy)) hsub.underway)
    (fun _ h => h) (fun c y _ hy => hk c y ⟨_, hsub, hy⟩) (fun _ _ _ h => h.elim))

end Nvme
