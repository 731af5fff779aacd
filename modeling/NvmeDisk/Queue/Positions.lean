import NvmeDisk.Queue.Matching
import NvmeDisk.Setup.CreateQueues

/-! Ring positions for the queue lengths a controller may offer, where they are right. The driver
    declares `L` entries and advances with the mask `L - 1`; the controller counts modulo `L`. For a
    power of two the two agree over every run, and an entry is missing only after a wait that gave
    up. For an odd `L` the full test succeeds on the empty ring: no entry is ever handed out. -/

namespace Nvme
open Ring Resume Bytes BlockDev

/-- The I/O queue as the controller has it once told the lengths declared in the create commands. -/
def World.told (w : World) : World :=
  let sqLen := declaredLen nvmeSqeOpcAdminCreateIoSq w.log
  let cqLen := declaredLen nvmeSqeOpcAdminCreateIoCq w.log
  w.setQ .io { w.q .io with ctl := freshCtl sqLen cqLen }

/-- One I/O command: the arguments of `nvme_io_xfer`. -/
structure IoCmd where
  ns : NvmeNamespace
  lba : Nat
  prp1 : Nat
  prp2 : Nat
  count : Nat
  write : Bool

def ioCommands : List IoCmd → Drv Unit
  | [] => return ()
  | c :: cs => do
    let _ ← nvmeIoXfer c.ns c.lba c.prp1 c.prp2 c.count c.write
    ioCommands cs

/-- How many completions were consumed on queue `i`. -/
def consumes (i : QId) (log : List Event) : Nat := (trail i log).countP Event.isConsumed

/-- The `n`-th tail written to the I/O submission doorbell is `n % L`, and hands over the one slot
    after those before it; the `n`-th head written to the completion doorbell is `n % L`. -/
structure PositionsAgree (L : Nat) (log : List Event) : Prop where
  tails : ∀ post pre slot e tail, log = post ++ .commit .io slot e tail :: pre →
    slot = commits .io pre % L ∧ tail = (commits .io pre + 1) % L
  heads : ∀ post pre head c, log = post ++ .consumed .io head c :: pre →
    head = (consumes .io pre + 1) % L

/-- Controllers that may complete a command with any status. -/
def anyStatus : Nat → Bool := fun _ => true

variable {w v : World} {L n : Nat}

theorem AllRight.positions {log : List Event} (h : AllRight L L (trail .io log)) :
    PositionsAgree L log where
  tails post pre slot e tail hlog := by
    rw [hlog, trail_append, trail_cons_same rfl] at h
    exact h.split
  heads post pre head c hlog := by
    rw [hlog, trail_append, trail_cons_same rfl] at h
    exact h.split

/-! ### Powers of two -/

theorem Sent.timedOut {C : Nat} {D : List NvmeCqe} {e : NvmeSqe}
    (h : Sent .io L C D e [.timeout .io] w) : .timeout .io ∈ w.log := by
  obtain ⟨t, _, hlog⟩ := h.rounds
  exact timeout_mem_trail.mp (by simp [hlog])

/-- A settled queue has no entry to give exactly after a wait that gave up. -/
theorem Settled.missing {C : Nat} [Fact (Pow2 L)] (h : Settled .io L C w)
    (opc metadata data data2 : Nat) :
    nvmeGetNextSqe (w.q .io) opc metadata data data2 = (none, w.q .io) ↔ .timeout .io ∈ w.log := by
  cases h with
  | rest D h =>
    refine iff_of_false ?_ (mt timeout_mem_trail.mpr h.rounds.no_timeout)
    rw [h.idle.getNextSqe]
    simp
  | stuck D e h =>
    obtain ⟨s, hout⟩ := h.out
    exact iff_of_true (hout.getNextSqe _ _ _ _) h.timedOut

section
variable {mayFail : Nat → Bool} {C : Nat} [Fact (Pow2 L)] [Fact (Pow2 C)]

theorem obeys_ioCommands (cmds : List IoCmd) : Obeys mayFail .io L C (ioCommands cmds) := by
  induction cmds with
  | nil => exact .ret _
  | cons c cs ih => exact .bind (obeys_ioXfer _ _ _ _ _ _) fun _ => ih

/-- A command stops at the missing entry only after a wait that gave up. -/
theorem wp_ioXfer_settled (ns : NvmeNamespace) (lba prp1 prp2 count : Nat) (write : Bool)
    (hw : Settled .io L C w) :
    Wp (Nvmec mayFail) (fun _ => True) (nvmeIoXfer ns lba prp1 prp2 count write)
      (fun _ => Settled .io L C) (fun _ v => .timeout .io ∈ v.log) w := by
  have hret : ∀ (r : Int) v, Settled .io L C v → Wp (Nvmec mayFail) (fun _ => True)
      (.ret r : Drv Int) (fun _ => Settled .io L C) (fun _ v => .timeout .io ∈ v.log) v :=
    fun r v hv => wp_ret fun u hu => ⟨trivial, hv.env hu⟩
  unfold nvmeIoXfer
  split
  · refine wp_modify_bind fun v he => ⟨trivial, hret _ _ ?_⟩
    exact (hw.env he).leaves (.noted rfl rfl ⟨by simp [Event.queue?], rfl, by simp⟩)
  · cases hw with
    | rest D hw =>
      refine wp_command hw.idle (fun _ => rfl) rfl (fun _ _ => trivial) fun c v hv => ?_
      have hv' := hv.settled hw
      split
      · exact hret _ v hv'
      · exact hret _ v hv'
    | stuck D e hw =>
      refine wp_atom fun v he => ⟨trivial, ?_⟩
      have hv := hw.env he
      obtain ⟨s, hout⟩ := hv.out
      simp only [hout.getNextSqe]
      refine wp_halt fun u hu => ⟨trivial, ?_⟩
      have hself : v.setQ .io (v.q .io) = v := by simp [World.setQ]
      rw [hself] at hu
      exact (hv.env hu).timedOut

theorem wp_ioCommands_settled (cmds : List IoCmd) : ∀ w, Settled .io L C w →
    Wp (Nvmec mayFail) (fun _ => True) (ioCommands cmds) (fun _ => Settled .io L C)
      (fun _ v => .timeout .io ∈ v.log) w := by
  induction cmds with
  | nil => exact fun w hw => wp_ret fun u hu => ⟨trivial, hw.env hu⟩
  | cons c cs ih =>
    intro w hw
    refine wp_bind (wp_mono (wp_ioXfer_settled _ _ _ _ _ _ hw) (fun _ h => h) ?_ fun _ _ _ h => h)
    exact fun r v _ hv => ih v hv

end

/-- The queue pair of a successful creation. -/
theorem Created.told_idle {c : Nat} (h : Created c 4 v) :
    Idle (ioQueueLength c) (ioQueueLength c) [] (v.told.q .io) := by
  have hcq := h.cq (by omega)
  have hsq := h.sq (by omega)
  have hctl : (v.told.q .io).ctl = freshCtl (ioQueueLength c) (ioQueueLength c) := by
    rw [World.told, World.setQ_q_same, h.cqLen (by omega), h.sqLen (by omega)]
  have hsq' : (v.told.q .io).sq = (v.q .io).sq := by rw [World.told, World.setQ_q_same]
  have hcq' : (v.told.q .io).cq = (v.q .io).cq := by rw [World.told, World.setQ_q_same]
  have htags : (v.told.q .io).cqes = fun _ => zeroCqe := by
    rw [World.told, World.setQ_q_same]
    exact hcq.cqes
  exact {
    sqMask := by rw [hsq', hsq.mask]
    cqMask := by rw [hcq', hcq.mask]
    sqLen := by rw [hctl]; rfl
    cqLen := by rw [hctl]; rfl
    tail := by rw [hsq', hsq.tail]; simp
    head := by rw [hsq', hsq.head]; simp
    sqDbl := by rw [hctl]; simp [freshCtl]
    taken := by rw [hctl]; rfl
    flight := by rw [hctl]; rfl
    done := by rw [hctl]; rfl
    cqHead := by rw [hcq', hcq.head]; simp
    cqPhase := by rw [hcq', hcq.phase]; simp [phase]
    cqDbl := by rw [hctl]; simp [freshCtl]
    fresh := by
      intro j _
      simp [QPair.tags, htags, NvmeCqe.tag, NvmeCqe.dword3, zeroCqe, phase] }

/-- A queue nothing was committed on owes nothing. -/
theorem Punctual.of_trail_nil {i : QId} {log : List Event} (h : trail i log = []) :
    Punctual i n log := by
  have hzero : ∀ post back pre m, log = post ++ back :: pre → ¬ m < commits i pre := by
    intro post back pre m hs
    have := commits_split_le (i := i) hs
    rw [commits.eq_def i log, h] at this
    simp only [List.countP_nil] at this
    omega
  exact {
    past := fun post back pre m hs _ _ hlt => absurd hlt (hzero post back pre m hs)
    now := fun post back pre hs _ hlt => absurd hlt (hzero post back pre n hs) }

theorem Created.told_settled {c : Nat} (h : Created c 4 v) :
    Settled .io (ioQueueLength c) (ioQueueLength c) v.told := by
  have htrail : Nvme.trail .io v.told.log = [] := h.trail
  exact .rest [] ⟨h.told_idle, by rw [htrail]; exact .nil, .of_trail_nil htrail⟩

/-! ### Odd lengths -/

/-- A fresh queue with an even mask: `nvme_get_next_sqe` takes it for full. -/
structure Shut (w : World) : Prop where
  head : (w.q .io).sq.head = 0
  tail : (w.q .io).sq.tail = 0
  mask : (w.q .io).sq.common.mask % 2 = 0
  noWork : (w.q .io).ctl.NoWork
  trail : trail .io w.log = []

theorem Shut.env {mayFail : Nat → Bool} (h : Shut w) (he : Env (Nvmec mayFail) w v) : Shut v := by
  have ha := h.noWork.env he
  exact ⟨by rw [ha.q]; exact h.head, by rw [ha.q]; exact h.tail, by rw [ha.q]; exact h.mask,
    by rw [ha.q]; exact h.noWork, by rw [ha.log.trail]; exact h.trail⟩

theorem Shut.getNextSqe (h : Shut w) (opc metadata data data2 : Nat) :
    nvmeGetNextSqe (w.q .io) opc metadata data data2 = (none, w.q .io) := by
  have hfull : (0 + 1) &&& (w.q .io).sq.common.mask = 0 := by
    rw [Nat.zero_add, Nat.and_comm, Nat.and_one_is_mod]
    exact h.mask
  rw [nvmeGetNextSqe, h.head, h.tail, if_pos hfull]

/-- No command is ever committed on such a queue. -/
theorem wp_shut {mayFail : Nat → Bool} (cmds : List IoCmd) : ∀ w, Shut w →
    Wp (Nvmec mayFail) Shut (ioCommands cmds) (fun _ => Shut) (fun _ => Shut) w := by
  have hend : ∀ {α : Type} (p : Drv α) w, Shut w → p.Final →
      Wp (Nvmec mayFail) Shut p (fun _ => Shut) (fun _ => Shut) w := by
    intro α p w hw hp
    cases p with
    | ret a => exact wp_ret fun v he => ⟨hw.env he, hw.env he⟩
    | halt x => exact wp_halt fun v he => ⟨hw.env he, hw.env he⟩
    | atom f k => exact hp.elim
  induction cmds with
  | nil => exact fun w hw => hend _ w hw trivial
  | cons c cs ih =>
    intro w hw
    refine wp_bind ?_
    unfold nvmeIoXfer
    split
    · refine wp_modify_bind fun v he => ⟨hw.env he, wp_ret fun u hu => ?_⟩
      have hv := hw.env he
      have hnote : Shut (v.note (.warn .internalerror)) :=
        { hv with trail := (trail_cons_ne (by simp [Event.queue?]) _).trans hv.trail }
      exact ⟨hnote.env hu, ih u (hnote.env hu)⟩
    · refine wp_atom fun v he => ⟨hw.env he, ?_⟩
      have hv := hw.env he
      simp only [hv.getNextSqe]
      have hself : v.setQ .io (v.q .io) = v := by simp [World.setQ]
      rw [hself]
      exact wp_halt fun u hu => ⟨hv.env hu, hv.env hu⟩

theorem Created.told_shut {c : Nat} (h : Created c 4 v) (hodd : ioQueueLength c % 2 = 1) :
    Shut v.told := by
  have hsq := h.sq (by omega)
  have hsq' : (v.told.q .io).sq = (v.q .io).sq := by rw [World.told, World.setQ_q_same]
  refine ⟨by rw [hsq', hsq.head], by rw [hsq', hsq.tail], ?_, ?_, h.trail⟩
  · rw [hsq', hsq.mask]
    omega
  · rw [World.told, World.setQ_q_same]
    exact ⟨Nat.zero_mod _, rfl⟩

end Nvme
