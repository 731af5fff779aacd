import NvmeDisk.Queue.Drift

/-! The ring-full test of `nvme_get_next_sqe`. It compares the tail with the slot after the head, where
    a full ring has the head after the tail: with every command taken back it is right, and from the
    commit of a command until its completion is consumed it takes the ring for full. A wait that
    gives up leaves the queue so for good, and `nvme_io_xfer` writes through the missing entry. -/

namespace Nvme
open Ring Resume Bytes BlockDev

variable {mayFail : Nat → Bool} {w v u : World} {i : QId} {L C : Nat} {D : List NvmeCqe}
  {e : NvmeSqe} {s : Stage} {t : List Event} {q : QPair}

/-! ### What the controller reported -/

/-- The head in the completion the controller posted last, 0 before the first. -/
def QPair.reportedHead (q : QPair) : Nat := (q.ctl.done.getLast?.map (·.sqHead)).getD 0

/-- `nvme_get_next_sqe` returns `NULL` exactly if no entry is free: the slot after the tail is the
    head reported last. -/
def FullTestExact (L : Nat) (q : QPair) : Prop :=
  ∀ opc metadata data data2, (nvmeGetNextSqe q opc metadata data data2).1 = none ↔
    (q.sq.tail + 1) % L = q.reportedHead

/-- The completions of a trail report the number of commands. -/
theorem Rounds.reported (h : Rounds i L C D t) :
    (D.getLast?.map (·.sqHead)).getD 0 = D.length % L := by
  cases h with
  | nil => simp
  | round e sf h => simp [cqeOf]

/-! ### Exact or not -/

/-- With all commands taken back the test is right: the ring is empty, and the code says so. -/
theorem Idle.fullTestExact [hL : Fact (Pow2 L)] (h : Idle L C D q) (hr : q.reportedHead = D.length % L) :
    FullTestExact L q := by
  intro opc metadata data data2
  have hne := hL.out.succ_mod_ne D.length
  rw [h.getNextSqe, hr, h.tail, Nat.mod_add_mod]
  simp [hne]

/-- Two slots on from a counter is another slot. -/
theorem add_two_mod_ne (hL : 4 ≤ L) (n : Nat) : (n + 2) % L ≠ n % L := by
  rcases mod_succ_cases n L (by omega) with ⟨h1, h2, _⟩ | ⟨h1, h2, _⟩ <;>
    rcases mod_succ_cases (n + 1) L (by omega) with ⟨h3, h4, _⟩ | ⟨h3, h4, _⟩ <;>
    simp only [Nat.add_assoc, Nat.reduceAdd] at h4 <;> omega

/-- With a command outstanding the code finds the ring full, while all but one entry are free. -/
theorem Outstanding.not_fullTestExact [hP : Fact (Pow2 L)] (h : Outstanding i L C D e s q) (hL : 4 ≤ L)
    (hr : (D.getLast?.map (·.sqHead)).getD 0 = D.length % L) : ¬ FullTestExact L q := by
  intro hex
  have hnull : (nvmeGetNextSqe q 0 0 0 0).1 = none := by rw [h.getNextSqe]
  have hfull := (hex 0 0 0 0).mp hnull
  rw [h.tail, Nat.mod_add_mod] at hfull
  have hstage := h.stage
  cases s with
  | queued =>
    rw [QPair.reportedHead, hstage.2.2.1, hr] at hfull
    exact add_two_mod_ne hL _ hfull
  | flying sf =>
    rw [QPair.reportedHead, hstage.2.2.1, hr] at hfull
    exact add_two_mod_ne hL _ hfull
  | posted sf =>
    -- even the command's own completion reported does not help: the driver has not taken it
    have hrep : q.reportedHead = (D.length + 1) % L := by
      rw [QPair.reportedHead, hstage.2.2.1]
      simp [cqeOf]
    rw [hrep] at hfull
    exact hP.out.succ_mod_ne _ hfull

/-- The trail with a command outstanding: one more commit than completions consumed. -/
theorem Sent.behind {stamp : List Event} (h : Sent i L C D e stamp w)
    (hs : stamp.countP Event.isCommit = 0) (hs' : stamp.countP Event.isConsumed = 0) :
    consumes i w.log ≠ commits i w.log := by
  obtain ⟨t, ht, hlog⟩ := h.rounds
  rw [consumes, commits, hlog]
  simp [List.countP_append, List.countP_cons, hs, hs', committedOf, Event.isConsumed, ht.commits,
    ht.consumes]

/-- Between any two steps the test is right exactly if every committed command's completion has been
    consumed. -/
theorem Control.fullTestExact [Fact (Pow2 L)] (h : Control i L C w) (hL : 4 ≤ L) :
    FullTestExact L (w.q i) ↔ consumes i w.log = commits i w.log := by
  have hsent : ∀ {D e stamp}, Sent i L C D e stamp w → stamp.countP Event.isCommit = 0 →
      stamp.countP Event.isConsumed = 0 →
      (FullTestExact L (w.q i) ↔ consumes i w.log = commits i w.log) := by
    intro D e stamp h hs hs'
    obtain ⟨s, hout⟩ := h.out
    obtain ⟨t, ht, _⟩ := h.rounds
    exact iff_of_false (hout.not_fullTestExact hL ht.reported) (h.behind hs hs')
  cases h with
  | settled h =>
    cases h with
    | rest D h =>
      have hr : (w.q i).reportedHead = D.length % L := by
        rw [QPair.reportedHead, h.idle.done]
        exact h.rounds.reported
      refine iff_of_true (h.idle.fullTestExact hr) ?_
      rw [consumes, commits, h.rounds.consumes, h.rounds.commits]
    | stuck D e h => exact hsent h rfl rfl
  | busy D e h => exact hsent h rfl rfl
  | half D e sf h =>
    obtain ⟨t, ht, hlog⟩ := h.rounds
    have hr : (w.q i).reportedHead = (D ++ [cqeOf i L C D e sf]).length % L := by
      rw [QPair.reportedHead, h.idle.done]
      exact (ht.round e sf).reported
    refine iff_of_true (h.idle.fullTestExact hr) ?_
    rw [consumes, commits, hlog]
    simp [List.countP_cons, consumedOf, committedOf, Event.isConsumed, ht.commits, ht.consumes]

/-- Between two uses that is so exactly if no wait on the queue has given up. -/
theorem Settled.consumed_iff (h : Settled i L C w) :
    consumes i w.log = commits i w.log ↔ .timeout i ∉ w.log := by
  cases h with
  | rest D h =>
    refine iff_of_true ?_ (mt timeout_mem_trail.mpr h.rounds.no_timeout)
    rw [consumes, commits, h.rounds.consumes, h.rounds.commits]
  | stuck D e h =>
    refine iff_of_false (h.behind rfl rfl) (not_not.mpr (timeout_mem_trail.mp ?_))
    obtain ⟨t, _, hlog⟩ := h.rounds
    simp [hlog]

/-- CORRECT: in every state any run reaches, the full test is exact if and only if every command
    committed on the queue has had its completion consumed; between two uses, if and only if no wait
    on the queue has given up. -/
theorem full_test_exact_iff (mayFail : Nat → Bool) (L C : QId → Nat) (us : List Use) {w v : World}
    {p : Drv Unit} (hL : ∀ i, Pow2 (L i) ∧ 4 ≤ L i ∧ L i ≤ 65536)
    (hC : ∀ i, Pow2 (C i) ∧ C i ≤ 65536) (hinit : ∀ i, Initialised (L i) (C i) (w.q i))
    (hlog : w.log = []) (hrun : Steps (Nvmec mayFail) w (useQueues us) v p) (i : QId) :
    (FullTestExact (L i) (v.q i) ↔ consumes i v.log = commits i v.log) ∧
    (p = .ret () → (FullTestExact (L i) (v.q i) ↔ .timeout i ∉ v.log)) := by
  have : Fact (Pow2 (L i)) := ⟨(hL i).1⟩
  have : Fact (Pow2 (C i)) := ⟨(hC i).1⟩
  have hset := (hinit i).settled (hL i).1 (hC i).1 (hL i).2.2 (hC i).2 hlog
  obtain ⟨hctl, hend⟩ := obeys_useQueues us w hset v p hrun
  have hiff := hctl.fullTestExact (hL i).2.1
  refine ⟨hiff, ?_⟩
  rintro rfl
  exact hiff.trans hend.consumed_iff

/-! ### One slow command -/

/-- Four entries on both rings of the I/O pair. -/
def fourLen : QId → Nat
  | .admin => 64
  | .io => 4

def fourWorld : World :=
  freshWorld fourLen fourLen ⟨fun _ => 0, fun _ => 0⟩ sampleSys sampleDevice

theorem fourLen_pow (i : QId) : Pow2 (fourLen i) ∧ 4 ≤ fourLen i ∧ fourLen i ≤ 65536 := by
  cases i
  · exact ⟨⟨6, by decide, rfl⟩, by decide, by decide⟩
  · exact ⟨⟨2, by decide, rfl⟩, by decide, by decide⟩

/-- The driver polls 500 times and gives up; only then the controller completes the command. -/
def slowUse : World × Drv Unit :=
  follow (nvmeMove noFail) (List.replicate 504 none ++ [some (.fetch .io), some (.exec .io 0),
    some (.post .io 0)]) fourWorld (useQueues [sampleUse 5])

set_option maxRecDepth 20000 in
/-- The command is completed and reported, three of four entries are free, and there is none to be
    had. -/
theorem full_test_wrong : Steps (Nvmec noFail) fourWorld (useQueues [sampleUse 5]) slowUse.1 (.ret ()) ∧
    (slowUse.1.q .io).ctl.flight = [] ∧ (slowUse.1.q .io).reportedHead = 1 ∧
    (slowUse.1.q .io).sq.tail = 1 ∧
    (nvmeGetNextSqe (slowUse.1.q .io) nvmeSqeOpcIoRead 0 0x100000 0).1 = none ∧
    ¬ FullTestExact 4 (slowUse.1.q .io) := by
  have hret : slowUse.2.value? = some () := by decide +kernel
  have hnull : (nvmeGetNextSqe (slowUse.1.q .io) nvmeSqeOpcIoRead 0 0x100000 0).1 = none := by
    decide +kernel
  have htail : (slowUse.1.q .io).sq.tail = 1 := by decide +kernel
  have hhead : (slowUse.1.q .io).reportedHead = 1 := by decide +kernel
  refine ⟨follow_ret hret fun _ _ h => h, by decide +kernel, hhead, htail, hnull, fun h => ?_⟩
  have hfull := (h _ _ _ _).mp hnull
  rw [htail, hhead] at hfull
  cases hfull

set_option maxRecDepth 20000 in
theorem full_test_exact_iff_sample : commits .io slowUse.1.log = 1 ∧
    (FullTestExact 4 (slowUse.1.q .io) ↔ consumes .io slowUse.1.log = commits .io slowUse.1.log) ∧
    (slowUse.2 = .ret () → (FullTestExact 4 (slowUse.1.q .io) ↔ .timeout .io ∉ slowUse.1.log)) :=
  ⟨by decide +kernel, full_test_exact_iff noFail fourLen fourLen [sampleUse 5] fourLen_pow
    (fun i => ⟨(fourLen_pow i).1, (fourLen_pow i).2.2⟩) (fun i => freshPair_initialised i _ _) rfl
    (follow_steps ..) .io⟩

/-! ### A transfer that finds no entry -/

/-- `nvme_get_next_sqe` returns an entry of the I/O queue. -/
def Roomy (w : World) : Prop := ((w.q .io).sq.head + 1) &&& (w.q .io).sq.common.mask ≠ (w.q .io).sq.tail

/-- `nvme_io_xfer` begun in `w` goes on only with an entry: it never stores through a missing one,
    and where there is none it returns -1 and leaves the driver's side of the queue alone. -/
structure Guarded (mayFail : Nat → Bool) (c : IoCmd) (w : World) : Prop where
  safe : ∀ v, ¬ Steps (Nvmec mayFail) w (nvmeIoXfer c.ns c.lba c.prp1 c.prp2 c.count c.write) v
    (.halt .nullSqe)
  refused : ¬ Roomy w → ∀ v r,
    Steps (Nvmec mayFail) w (nvmeIoXfer c.ns c.lba c.prp1 c.prp2 c.count c.write) v (.ret r) →
    r = -1 ∧ (v.q .io).sq = (w.q .io).sq ∧ (v.q .io).cq = (w.q .io).cq ∧
      (v.q .io).sqes = (w.q .io).sqes

theorem SameDriver.roomy (h : SameDriver .io w v) : Roomy v ↔ Roomy w := by rw [Roomy, Roomy, h.sq]

theorem roomy_iff (opc metadata data data2 : Nat) :
    Roomy w ↔ (nvmeGetNextSqe (w.q .io) opc metadata data data2).1 ≠ none := by
  rw [Roomy, nvmeGetNextSqe]
  split <;> simp_all

theorem Settled.roomy_iff [Fact (Pow2 L)] (h : Settled .io L C w) : Roomy w ↔ .timeout .io ∉ w.log := by
  rw [← h.consumed_iff, Nvme.roomy_iff 0 0 0 0]
  cases h with
  | rest D h =>
    refine iff_of_true (by simp [h.idle.getNextSqe]) ?_
    rw [consumes, commits, h.rounds.consumes, h.rounds.commits]
  | stuck D e h =>
    obtain ⟨s, hout⟩ := h.out
    exact iff_of_false (by simp [hout.getNextSqe]) (h.behind rfl rfl)

theorem Shut.not_roomy (h : Shut w) : ¬ Roomy w := by
  rw [Nvme.roomy_iff 0 0 0 0, h.getNextSqe]
  simp

/-- Code whose actions are all accounted for never ends abnormally. -/
theorem no_halt_of_does {α : Type} {R ρ : World → World → Prop} {p : Drv α} (hp : p.Does ρ)
    {x : Halt} : ¬ Steps R w p v (.halt x) := fun hs =>
  (wp_keeps (P := fun _ => True) (fun _ _ _ _ => trivial) (hp.keeps fun _ _ _ _ => trivial) trivial
    v _ hs).2

/-- A misaligned command is refused before the queue is looked at. -/
theorem guarded_of_misaligned {c : IoCmd} (h : misaligned c.prp1 c.prp2) : Guarded mayFail c w := by
  have hprog : nvmeIoXfer c.ns c.lba c.prp1 c.prp2 c.count c.write = do
      warn .internalerror
      return -1 := if_pos h
  have hwp : Wp (Nvmec mayFail) (fun _ => True)
      (nvmeIoXfer c.ns c.lba c.prp1 c.prp2 c.count c.write)
      (fun r v => r = -1 ∧ SameDriver .io w v) (fun _ _ => False) w := by
    rw [hprog]
    refine wp_modify_bind fun v hv => ⟨trivial, wp_ret fun u hu => ⟨trivial, rfl, ?_⟩⟩
    have hnote : SameDriver .io v (v.note (.warn .internalerror)) := ⟨rfl, rfl, rfl⟩
    exact ((sameDriver_env hv .io).trans hnote).trans (sameDriver_env hu .io)
  refine ⟨fun v hs => (hwp v _ hs).2, fun _ v r hs => ?_⟩
  obtain ⟨hr, hsame⟩ := (hwp v _ hs).2
  exact ⟨hr, hsame.sq, hsame.cq, hsame.sqes⟩

/-- Where there is an entry the whole command runs to its end. -/
theorem guarded_of_roomy {c : IoCmd} (h : Roomy w) : Guarded mayFail c w := by
  by_cases hal : misaligned c.prp1 c.prp2
  · exact guarded_of_misaligned hal
  refine ⟨fun v hs => ?_, fun hn => absurd h hn⟩
  rw [nvmeIoXfer, if_neg hal] at hs
  rcases steps_atom hs with ⟨hq, _⟩ | ⟨u, hu, hs'⟩
  · cases hq
  · have hroom := (roomy_iff (if c.write then nvmeSqeOpcIoWrite else nvmeSqeOpcIoRead) 0 c.prp1
      c.prp2).mp ((sameDriver_env hu .io).roomy.mpr h)
    obtain ⟨slot, hslot⟩ := Option.ne_none_iff_exists'.mp hroom
    simp only [hslot] at hs'
    change Steps _ _ (fillIn .io (some slot) _ _ _ _ >>= _) _ _ at hs'
    -- fill in, commit and wait touch the queue only, and all of them come to an end
    refine no_halt_of_does (ρ := OnQueue .io true) ?_ hs'
    have hq : ∀ {w v}, OnQueue .io false w v → OnQueue .io true w v :=
      fun h => { h with log := h.log.imp_right (.imp fun _ h => ⟨h.1, fun _ => rfl, h.2.2⟩) }
    refine .bind ((does_fillIn ..).mono fun _ _ => hq) fun _ => .bind (does_commitSqe .io) fun _ =>
      .bind ((does_wait .io).mono fun _ _ => hq) fun cqe => ?_
    split <;> exact .ret

/-- With no entry an aligned command stores through `NULL` at once. -/
theorem not_guarded {c : IoCmd} (hal : ¬ misaligned c.prp1 c.prp2) (h : ¬ Roomy w) :
    ¬ Guarded mayFail c w := by
  intro hg
  let opc := if c.write then nvmeSqeOpcIoWrite else nvmeSqeOpcIoRead
  have hnull : (nvmeGetNextSqe (w.q .io) opc 0 c.prp1 c.prp2).1 = none := by
    simpa using mt (roomy_iff opc 0 c.prp1 c.prp2).mpr h
  refine hg.safe (w.setQ .io (nvmeGetNextSqe (w.q .io) opc 0 c.prp1 c.prp2).2) ?_
  have hs : Steps (Nvmec mayFail) w (nvmeIoXfer c.ns c.lba c.prp1 c.prp2 c.count c.write)
      (w.setQ .io (nvmeGetNextSqe (w.q .io) opc 0 c.prp1 c.prp2).2)
      ((fillIn .io (nvmeGetNextSqe (w.q .io) opc 0 c.prp1 c.prp2).1 c.ns.nsId (u32 c.lba)
        (u32 (c.lba >>> 32)) (1 <<< 31 ||| u32 (c.count + 4294967295))) >>= fun _ => do
          commitSqe .io
          let cqe ← nvmeWait .io
          if nvmeIsCqeSuccess cqe then return c.count else return -1) := by
    rw [nvmeIoXfer, if_neg hal]
    exact .act .refl
  rw [hnull] at hs
  exact hs

/-- CORRECT: after any sequence of transfers on queues created under any CAP, a transfer goes on only
    with an entry, and leaves the queue alone without one, if and only if its pointers are misaligned
    or the ring-full test finds room. For a power-of-two length that is until a wait gives up, for an
    odd length never. -/
theorem transfer_guarded_iff (mayFail : Nat → Bool) (cmds : List IoCmd) (c : IoCmd) {w v u : World}
    (hrun : Steps CreateEnv w nvmeCreateIoQueues v (.ret 0)) (htrail : trail .io w.log = [])
    (hio : Steps (Nvmec mayFail) v.told (ioCommands cmds) u (.ret ())) :
    (Guarded mayFail c u ↔ misaligned c.prp1 c.prp2 ∨ Roomy u) ∧
    (Pow2 (ioQueueLength w.reg.cap) → (Roomy u ↔ .timeout .io ∉ u.log)) ∧
    (ioQueueLength w.reg.cap % 2 = 1 → ¬ Roomy u) := by
  have h := created_of_run hrun htrail
  refine ⟨⟨fun hg => ?_, ?_⟩, fun hp => ?_, fun hodd => ?_⟩
  · by_contra hno
    rw [not_or] at hno
    exact not_guarded hno.1 hno.2 hg
  · rintro (hal | hroom)
    · exact guarded_of_misaligned hal
    · exact guarded_of_roomy hroom
  · have : Fact (Pow2 (ioQueueLength w.reg.cap)) := ⟨hp⟩
    exact (obeys_ioCommands cmds _ h.told_settled u _ hio).2.roomy_iff
  · exact Shut.not_roomy (wp_shut cmds _ (h.told_shut hodd) u _ hio).2

/-- An initialised admin pair, and MQES 3. -/
def fourStart : World :=
  { bareWorld 3 fun n => some (sampleBlock n) with q := fun _ => freshPair .admin 64 256 }

def fourCreated : World × Drv Int := follow deviceAct sixScript fourStart nvmeCreateIoQueues

/-- A read that the controller does not complete in time. -/
def fourRead : World × Drv Unit :=
  follow (nvmeMove noFail) (List.replicate 504 none) fourCreated.1.told (ioCommands [sixCmd])

theorem fourCreated_run : Steps CreateEnv fourStart nvmeCreateIoQueues fourCreated.1 (.ret 0) :=
  follow_ret (by decide +kernel) fun _ _ => deviceAct_createEnv

set_option maxRecDepth 20000 in
theorem fourRead_run :
    Steps (Nvmec noFail) fourCreated.1.told (ioCommands [sixCmd]) fourRead.1 (.ret ()) :=
  follow_ret (by decide +kernel) fun _ _ h => h

set_option maxRecDepth 20000 in
/-- After one read that timed out, the next one stores through the missing entry. -/
theorem transfer_through_null : Steps CreateEnv fourStart nvmeCreateIoQueues fourCreated.1 (.ret 0) ∧
    Steps (Nvmec noFail) fourCreated.1.told (ioCommands [sixCmd]) fourRead.1 (.ret ()) ∧
    ¬ Guarded noFail sixCmd fourRead.1 := by
  have hfull : ¬ Roomy fourRead.1 := by
    rw [Roomy]
    decide +kernel
  exact ⟨fourCreated_run, fourRead_run, not_guarded (by decide) hfull⟩

theorem transfer_guarded_iff_sample : ioQueueLength fourStart.reg.cap = 4 ∧
    (Guarded noFail sixCmd fourRead.1 ↔ misaligned sixCmd.prp1 sixCmd.prp2 ∨ Roomy fourRead.1) ∧
    (Pow2 (ioQueueLength fourStart.reg.cap) →
      (Roomy fourRead.1 ↔ .timeout .io ∉ fourRead.1.log)) ∧
    (ioQueueLength fourStart.reg.cap % 2 = 1 → ¬ Roomy fourRead.1) :=
  ⟨by decide, transfer_guarded_iff noFail [sixCmd] sixCmd fourCreated_run rfl fourRead_run⟩

end Nvme
