import NvmeDisk.Queue.Command
import NvmeDisk.Setup.Starting

/-! Admin commands of the set-up, given to a controller that has just been turned on. Until the command
    is answered the controller works on nothing else; a create command it executes with success makes
    its half of the I/O pair, of the length the command declares, before the completion is posted. -/

namespace Nvme
open Ring Resume Bytes BlockDev

/-- What the queue operations leave of a pair: doorbells, masks, and the addresses of the rings. -/
def QPair.base (q : QPair) : (NvmeQueue × Nat) × NvmeQueue × Nat :=
  ((q.sq.common, q.sq.sqe), q.cq.common, q.cq.cqe)

/-- The doorbell write for `e`. -/
def commitOf (D : List NvmeCqe) (e : NvmeSqe) : Event :=
  .commit .admin (D.length % adminSqLen) e ((D.length + 1) % adminSqLen)

section
variable (mayFail : Nat → Bool) (w₀ : World) (D : List NvmeCqe) (e : NvmeSqe)

/-- Command `e`, prepared and committed from `w₀` on, is at stage `s`. -/
structure InHand (s : Stage) (w : World) : Prop where
  enabled : w.reg.enabled = true
  ready : w.reg.ready = true
  out : Outstanding .admin adminSqLen adminCqLen D e s (w.q .admin)
  base : (w.q .admin).base = (w₀.q .admin).base
  io : w.q .io = if s.sf = some 0 then (w₀.q .io).create e else w₀.q .io
  sys : w.sys = w₀.sys
  reg : w.reg = w₀.reg
  dev : w.dev = w₀.dev
  log : Grows w₀ w
  commit : commitOf D e ∈ w.log
  status : s.Status mayFail
  data : s.Data w₀.dev .admin e w₀.store w.store

/-- Command `e` was answered, with status field `sf`, and the driver took the answer. -/
structure Completed (sf : Nat) (w : World) : Prop where
  up : Up (D ++ [cqeOf .admin adminSqLen adminCqLen D e sf]) w
  base : (w.q .admin).base = (w₀.q .admin).base
  io : w.q .io = if sf = 0 then (w₀.q .io).create e else w₀.q .io
  sys : w.sys = w₀.sys
  reg : w.reg = w₀.reg
  dev : w.dev = w₀.dev
  log : Grows w₀ w
  commit : commitOf D e ∈ w.log
  status : OkStatus mayFail sf
  data : Ended w₀.dev .admin e w₀.store sf w.store

end

variable {mayFail : Nat → Bool} {w₀ w v : World} {D : List NvmeCqe} {e : NvmeSqe} {s : Stage}
  {sf : Nat}

theorem create_noWork {q : QPair} (h : q.ctl.NoWork) (e : NvmeSqe) : (q.create e).ctl.NoWork := by
  unfold QPair.create
  split
  · exact ⟨h.fetched, h.flight⟩
  · split
    · exact ⟨Nat.zero_mod _, rfl⟩
    · exact h

theorem InHand.noWork (h : InHand mayFail w₀ D e s w) (hio : (w₀.q .io).ctl.NoWork) :
    (w.q .io).ctl.NoWork := by
  rw [h.io]
  split
  · exact create_noWork hio e
  · exact hio

/-- The pair shows how far the command is. -/
theorem Outstanding.unique {i : QId} {L C : Nat} {s' : Stage} {q : QPair}
    (h : Outstanding i L C D e s q) (h' : Outstanding i L C D e s' q) : s = s' := by
  have hs := h.stage
  have hs' := h'.stage
  cases s with
  | queued =>
    cases s' with
    | queued => rfl
    | flying sf => simp [Stage.At, hs.2.1] at hs'
    | posted sf => simp [Stage.At, hs.2.2.1] at hs'
  | flying sf =>
    cases s' with
    | queued => simp [Stage.At, hs.2.1] at hs'
    | flying sf' =>
      have := hs.2.1.symm.trans hs'.2.1
      simpa using this
    | posted sf' => simp [Stage.At, hs.2.1] at hs'
  | posted sf =>
    cases s' with
    | queued => simp [Stage.At, hs.2.2.1] at hs'
    | flying sf' => simp [Stage.At, hs.2.1] at hs'
    | posted sf' =>
      have hc := List.append_cancel_left (hs.2.2.1.symm.trans hs'.2.2.1)
      have hsf := congrArg NvmeCqe.sf (List.head_eq_of_cons_eq hc)
      simpa using hsf

/-- The move that executes the command is the one that gives it status 0. -/
theorem Outstanding.executed {m : Move} {s' : Stage} {L C : Nat} [Fact (Pow2 C)]
    (h : Outstanding .admin L C D e s (w.q .admin)) (hio : (w.q .io).ctl.NoWork)
    (hm : nvmeMove mayFail m w = some v) (h' : Outstanding .admin L C D e s' (v.q .admin)) :
    (executed m w = some e ∧ s.sf = none ∧ s'.sf = some 0) ∨
      (Nvme.executed m w = none ∧ (s'.sf = some 0 ↔ s.sf = some 0)) := by
  -- only the command is in flight, at position 0
  have hone : ∀ {k : Nat} {f : Flight}, (w.q .admin).ctl.flight[k]? = some f →
      k = 0 ∧ f = ⟨e, D.length, f.status⟩ ∧ s = .flying f.status := by
    intro k f hfl
    have hstage := h.stage
    cases s with
    | queued => rw [hstage.2.1] at hfl; cases hfl
    | posted sf => rw [hstage.2.1] at hfl; cases hfl
    | flying sf =>
      rw [hstage.2.1] at hfl
      cases k with
      | zero => cases hfl; exact ⟨rfl, rfl, rfl⟩
      | succ k => cases hfl
  have hsame : v.q .admin = w.q .admin → (s'.sf = some 0 ↔ s.sf = some 0) := by
    intro hq
    rw [hq] at h'
    rw [h.unique h']
  cases m with
  | fetch i =>
    simp only [nvmeMove] at hm
    split at hm
    · cases hm
    rename_i hne
    cases hm
    refine .inr ⟨rfl, ?_⟩
    cases i with
    | io => exact absurd hio.fetched hne
    | admin =>
      rw [World.setQ_q_same] at h'
      have hs : s = .queued := by
        have hstage := h.stage
        cases s with
        | queued => rfl
        | flying sf => exact absurd (by rw [hstage.1, h.sqLen, h.sqDbl]) hne
        | posted sf => exact absurd (by rw [hstage.1, h.sqLen, h.sqDbl]) hne
      subst hs
      rw [← h.fetch.unique h']
      simp [Stage.sf]
  | part i k g =>
    refine .inr ⟨rfl, hsame ?_⟩
    simp only [nvmeMove] at hm
    split at hm
    · obtain ⟨t, _, rfl⟩ := Option.map_eq_some_iff.mp hm
      rfl
    · cases hm
  | exec i k =>
    simp only [nvmeMove] at hm
    split at hm
    · rename_i e' n hfl
      obtain ⟨t, _, rfl⟩ := Option.map_eq_some_iff.mp hm
      cases i with
      | io => rw [hio.flight] at hfl; cases hfl
      | admin =>
        obtain ⟨rfl, hf, rfl⟩ := hone hfl
        cases hf
        rw [World.note_q, World.setQ_q_same] at h'
        rw [← (h.settle 0).unique h']
        exact .inl ⟨by simp [Nvme.executed, hfl], rfl, rfl⟩
    · cases hm
  | fail i k sf =>
    refine .inr ⟨rfl, ?_⟩
    simp only [nvmeMove] at hm
    split at hm
    · rename_i e' n hfl
      split at hm
      · rename_i hsf
        cases hm
        cases i with
        | io => rw [hio.flight] at hfl; cases hfl
        | admin =>
          obtain ⟨rfl, hf, rfl⟩ := hone hfl
          cases hf
          rw [World.setQ_q_same] at h'
          rw [← (h.settle sf).unique h']
          simp [Stage.sf, hsf.2.1]
      · cases hm
    · cases hm
  | post i k =>
    refine .inr ⟨rfl, ?_⟩
    simp only [nvmeMove] at hm
    split at hm
    · rename_i e' n sf hfl
      split at hm
      · cases hm
      cases hm
      cases i with
      | io => rw [hio.flight] at hfl; cases hfl
      | admin =>
        obtain ⟨rfl, hf, rfl⟩ := hone hfl
        cases hf
        rw [World.setQ_q_same] at h'
        rw [← h.post.unique h']
        simp [Stage.sf]
    · cases hm

theorem Framed.grows (h : Framed w v) : Grows w v := by
  obtain ⟨l, hl⟩ := h.log
  exact ⟨_, hl⟩

/-- A move with `e` outstanding took it from stage `s` to `s'`; the I/O pair is as the move made it. -/
structure Further (mayFail : Nat → Bool) (D : List NvmeCqe) (e : NvmeSqe) (w : World) (s s' : Stage)
    (v : World) : Prop where
  out : Outstanding .admin adminSqLen adminCqLen D e s' (v.q .admin)
  base : (v.q .admin).base = (w.q .admin).base
  io : (s.sf = none ∧ s'.sf = some 0 ∧ v.q .io = (w.q .io).create e) ∨
    ((s'.sf = some 0 ↔ s.sf = some 0) ∧ v.q .io = w.q .io)
  framed : Framed w v
  status : s.Status mayFail → s'.Status mayFail
  data : ∀ s₀, s.Data w.dev .admin e s₀ w.store → s'.Data w.dev .admin e s₀ v.store

/-- CONTROLLER STEP: with an admin command outstanding the controller only gets on with it. -/
theorem Powered.further (hr : Powered mayFail w v) (henabled : w.reg.enabled = true)
    (hready : w.reg.ready = true) (hio : (w.q .io).ctl.NoWork)
    (h : Outstanding .admin adminSqLen adminCqLen D e s (w.q .admin)) :
    ∃ s', Further mayFail D e w s s' v := by
  obtain ⟨b, hb⟩ := hr
  rcases powerMove_cases hb with ⟨he, _, _⟩ | ⟨_, hoff, _⟩ | ⟨m, u, _, hu, rfl⟩
  · rw [henabled] at he
    cases he
  · rw [hready] at hoff
    cases hoff
  have hsame := sameDriver_move hu .admin
  have hadmin : ((executed m w).elim u u.create).q .admin = u.q .admin := by
    cases executed m w <;> simp
  have hstore : ((executed m w).elim u u.create).store = u.store := by cases executed m w <;> rfl
  rcases h.move hu with hel | ⟨s', hout, hp⟩
  · refine absurd (fun j hj => ?_) hel.busy
    cases j with
    | admin => exact absurd rfl hj
    | io => exact hio
  refine ⟨s', by rw [hadmin]; exact hout, ?_, ?_, executed_framed hu, hp.status, ?_⟩
  · rw [hadmin, QPair.base, hsame.sq, hsame.cq]
    rfl
  · rcases h.executed hio hu hout with ⟨hex, hs, hs'⟩ | ⟨hex, hs⟩
    · rw [hex, ← hp.other .io (by decide)]
      exact .inl ⟨hs, hs', create_io u e⟩
    · rw [hex]
      exact .inr ⟨hs, hp.other .io (by decide)⟩
  · rw [hstore]
    exact hp.data

theorem InHand.step (h : InHand mayFail w₀ D e s w) (hio : (w₀.q .io).ctl.NoWork)
    (hr : Powered mayFail w v) : ∃ s', InHand mayFail w₀ D e s' v := by
  obtain ⟨s', hv⟩ := hr.further h.enabled h.ready (h.noWork hio) h.out
  have hf := hv.framed
  refine ⟨s', ?_⟩
  exact {
    enabled := by rw [hf.reg]; exact h.enabled
    ready := by rw [hf.reg]; exact h.ready
    out := hv.out
    base := hv.base.trans h.base
    io := by
      rcases hv.io with ⟨hs, hs', hq⟩ | ⟨hs, hq⟩
      · rw [hq, h.io, if_neg (by simp [hs]), if_pos hs']
      · rw [hq, h.io]
        simp only [hs]
    sys := hf.sys.trans h.sys
    reg := hf.reg.trans h.reg
    dev := hf.dev.trans h.dev
    log := h.log.trans hf.grows
    commit := hf.grows.mem h.commit
    status := hv.status h.status
    data := by
      rw [← h.dev]
      exact hv.data _ (by rw [h.dev]; exact h.data) }

theorem InHand.env (h : InHand mayFail w₀ D e s w) (hio : (w₀.q .io).ctl.NoWork)
    (he : Env (Powered mayFail) w v) : ∃ s', InHand mayFail w₀ D e s' v := by
  induction he with
  | refl => exact ⟨s, h⟩
  | tail _ hr ih =>
    obtain ⟨s', hv⟩ := ih
    exact hv.step hio hr

/-! ### The wait -/

/-- A posted completion: the controller has nothing else to do. -/
theorem InHand.still (h : InHand mayFail w₀ D e (.posted sf) w) (hio : (w₀.q .io).ctl.NoWork) :
    Still w where
  settled := h.enabled.trans h.ready.symm
  rested _ i := by
    cases i with
    | admin => exact h.out.noWork
    | io => exact h.noWork hio

/-- Taking the completion. -/
theorem InHand.completed (h : InHand mayFail w₀ D e (.posted sf) w) (hio : (w₀.q .io).ctl.NoWork)
    (c : NvmeCqe) : Completed mayFail w₀ D e sf ((w.advanceCq .admin).copyCqe .admin c) where
  up := {
    enabled := h.enabled
    ready := h.ready
    idle := by simpa [World.advanceCq] using h.out.advance
    io := by
      rw [World.copyCqe_q, World.advanceCq, World.note_q, World.setQ_q_ne _ _ (by decide)]
      exact h.noWork hio }
  base := by
    rw [← h.base, World.copyCqe_q, World.advanceCq, World.note_q, World.setQ_q_same]
    rfl
  io := by
    rw [World.copyCqe_q, World.advanceCq, World.note_q, World.setQ_q_ne _ _ (by decide), h.io]
    simp [Stage.sf]
  sys := h.sys
  reg := h.reg
  dev := h.dev
  log := h.log.trans ⟨[_, _], rfl⟩
  commit := List.mem_cons_of_mem _ (List.mem_cons_of_mem _ h.commit)
  status := h.status sf rfl
  data := h.data

/-- How the wait for `e` ends: with its answer, or with `e` still in hand. -/
def Heard (mayFail : Nat → Bool) (w₀ : World) (D : List NvmeCqe) (e : NvmeSqe) (c : NvmeCqe)
    (v : World) : Prop :=
  (∃ sf, c = cqeOf .admin adminSqLen adminCqLen D e sf ∧ Completed mayFail w₀ D e sf v) ∨
    (c = nvmeErrorCqe ∧ .timeout .admin ∈ v.log ∧ ∃ s, InHand mayFail w₀ D e s v)

theorem InHand.wp_consume (h : InHand mayFail w₀ D e (.posted sf) w) (hio : (w₀.q .io).ctl.NoWork) :
    Wp (Powered mayFail) (fun _ => True) (nvmeConsumeCqe .admin) (Heard mayFail w₀ D e)
      (fun _ _ => False) w := by
  have hpoll : nvmePollCq (w.q .admin) = true := h.out.poll
  refine (h.still hio).wp_act ?_
  simp only [hpoll, if_true]
  have hans := h.completed hio (cqeOf .admin adminSqLen adminCqLen D e sf)
  have hquiet : Still (w.advanceCq .admin) :=
    ⟨hans.up.still.settled, fun hr => hans.up.still.rested hr⟩
  have hcopy : ((w.advanceCq .admin).q .admin).cqes (w.q .admin).cq.head =
      cqeOf .admin adminSqLen adminCqLen D e sf := by
    have hslot := h.out.stage.2.2.2.2
    rw [h.out.cqHead, World.advanceCq, World.note_q, World.setQ_q_same]
    exact hslot
  refine hquiet.wp_act (α := NvmeCqe) (k := fun c => .ret c) ?_
  simp only [hcopy]
  exact hans.up.still.wp_ret (.inl ⟨sf, rfl, hans⟩)

theorem logged_stable (ev : Event) : Stable (Powered mayFail) fun w => ev ∈ w.log :=
  fun _ _ h hr => (powered_grows hr).mem h

/-- WAIT RULE for a command in hand. -/
theorem wp_told (hio : (w₀.q .io).ctl.NoWork) : ∀ (k : Nat) (s : Stage) (w : World),
    InHand mayFail w₀ D e s w → Wp (Powered mayFail) (fun _ => True) (nvmeWaitLoop .admin k)
      (Heard mayFail w₀ D e) (fun _ _ => False) w
  | 0, s, w, h => by
    refine wp_modify_bind fun v he => ⟨trivial, wp_ret fun u hu => ⟨trivial, .inr ⟨rfl, ?_⟩⟩⟩
    obtain ⟨s', hv⟩ := h.env hio he
    have hlate : InHand mayFail w₀ D e s' (v.note (.timeout .admin)) :=
      { hv with log := hv.log.trans (.note rfl), commit := List.mem_cons_of_mem _ hv.commit }
    exact ⟨(logged_stable _).env (List.mem_cons_self ..) hu, hlate.env hio hu⟩
  | k + 1, s, w, h => by
    refine wp_get_bind fun v he => ⟨trivial, ?_⟩
    obtain ⟨s', hv⟩ := h.env hio he
    rw [hv.out.poll]
    cases s' with
    | queued => exact wp_told hio k _ v hv
    | flying sf => exact wp_told hio k _ v hv
    | posted sf => exact hv.wp_consume hio

/-! ### A command from start to end -/

/-- Ring entries the controller does not look at. -/
theorem Up.setSqes (h : Up D w) (sqes : Nat → NvmeSqe) :
    Up D (w.setQ .admin { w.q .admin with sqes := sqes }) where
  enabled := h.enabled
  ready := h.ready
  idle := by rw [World.setQ_q_same]; exact h.idle.setSqes sqes
  io := by rw [World.setQ_q_ne _ _ (by decide)]; exact h.io

theorem Up.commit (h : Up D w) (sqes : Nat → NvmeSqe) (he : sqes (D.length % adminSqLen) = e) :
    InHand mayFail w D e .queued
      ((w.setQ .admin { w.q .admin with sqes := sqes }).commitSqe .admin) where
  enabled := h.enabled
  ready := h.ready
  out := by
    have hidle := (h.setSqes sqes).idle
    rw [World.setQ_q_same] at hidle
    rw [World.commitSqe, World.note_q, World.setQ_q_same, World.setQ_q_same, ← he]
    exact hidle.commit
  base := by
    rw [World.commitSqe, World.note_q, World.setQ_q_same, World.setQ_q_same]
    rfl
  io := by
    rw [World.commitSqe, World.note_q, World.setQ_q_ne _ _ (by decide), World.setQ_q_ne _ _ (by decide)]
    rfl
  sys := rfl
  reg := rfl
  dev := rfl
  log := .note rfl
  commit := by
    have hidle := (h.setSqes sqes).idle
    rw [World.setQ_q_same] at hidle
    have htail := (hidle.commit (i := .admin)).tail
    simp only [World.commitSqe, World.note_log, World.setQ_q_same, h.idle.tail, htail, he]
    exact List.mem_cons_self ..
  status _ hsf := by cases hsf
  data := rfl

variable {α : Type} {Q : α → World → Prop}

/-- BOOT COMMAND RULE: with the controller on and idle, the command filled in is the one it gets. -/
theorem wp_bootCommand {opc metadata data data2 nsid dword10 dword11 dword12 : Nat}
    {f : Option Nat → Drv α} {k : NvmeCqe → Drv α} (h : Up D w)
    (hf : ∀ slot, f (some slot) = do
      fillIn .admin (some slot) nsid dword10 dword11 dword12
      commitSqe .admin
      let cqe ← nvmeWait .admin
      k cqe)
    (he : e = cmdSqe (D.length % adminSqLen) opc metadata data data2 nsid dword10 dword11 dword12)
    (hk : ∀ c v, Heard mayFail w D e c v →
      Wp (Powered mayFail) (fun _ => True) (k c) Q (fun _ _ => False) v) :
    Wp (Powered mayFail) (fun _ => True) (getNextSqe .admin opc metadata data data2 >>= f) Q
      (fun _ _ => False) w := by
  refine h.still.wp_act ?_
  simp only [h.idle.getNextSqe]
  rw [hf]
  refine (h.setSqes _).still.wp_modify ?_
  have hfill : (w.setQ .admin { w.q .admin with
      sqes := Function.update (w.q .admin).sqes (D.length % adminSqLen)
        (freshSqe (D.length % adminSqLen) opc metadata data data2) }).setQ .admin
      (fillSqe ((w.setQ .admin { w.q .admin with
        sqes := Function.update (w.q .admin).sqes (D.length % adminSqLen)
          (freshSqe (D.length % adminSqLen) opc metadata data data2) }).q .admin)
        (D.length % adminSqLen) nsid dword10 dword11 dword12) =
      w.setQ .admin { w.q .admin with
        sqes := Function.update (w.q .admin).sqes (D.length % adminSqLen) e } := by
    rw [he]
    simp [fillSqe, cmdSqe, World.setQ]
  rw [hfill]
  refine (h.setSqes _).still.wp_modify ?_
  have hsent : InHand mayFail w D e .queued ((w.setQ .admin { w.q .admin with
      sqes := Function.update (w.q .admin).sqes (D.length % adminSqLen) e }).commitSqe .admin) :=
    h.commit _ (by simp)
  exact wp_seq (wp_told h.io 500 _ _ hsent) (fun _ _ h => h) fun c v hc => hk c v hc

end Nvme
