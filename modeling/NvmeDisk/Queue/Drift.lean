import NvmeDisk.Queue.Positions
import NvmeDisk.Setup.Cleanup

/-! Ring positions for the other queue lengths. For one that is even and no power of two the driver
    counts like the controller (`Marching`) up to the lowest clear bit `t` of the mask, and command
    `2 ^ t` is given tail 0; for an odd one the first command has no entry. So the positions agree
    over every run exactly for the powers of two. -/

namespace Nvme
open Ring Resume Bytes BlockDev

variable {w v : World} {L n t : Nat} {q : QPair}

/-- A queue all of whose `n` commands so far were completed and consumed, on the first pass. -/
structure Marching (L n : Nat) (q : QPair) : Prop where
  sqMask : q.sq.common.mask = L - 1
  cqMask : q.cq.common.mask = L - 1
  tail : q.sq.tail = n
  head : q.sq.head = n
  cqHead : q.cq.head = n
  cqPhase : q.cq.phase = true
  sqLen : q.ctl.sqLen = L
  cqLen : q.ctl.cqLen = L
  ctlTail : q.ctl.tail = n
  ctlHead : q.ctl.head = n
  taken : q.ctl.taken = n
  flight : q.ctl.flight = []
  done : q.ctl.done.length = n

section
variable {R : World → World → Prop} {i : QId} {α : Type}

theorem steps_getNextSqe {opc metadata data data2 s : Nat} {f : Option Nat → Drv α}
    (h : nvmeGetNextSqe (w.q i) opc metadata data data2 = (some s, q)) :
    Steps R w (getNextSqe i opc metadata data data2 >>= f) (w.setQ i q) (f (some s)) := by
  have hs : Steps R w (getNextSqe i opc metadata data data2 >>= f)
      (w.setQ i (nvmeGetNextSqe (w.q i) opc metadata data data2).2)
      (f (nvmeGetNextSqe (w.q i) opc metadata data data2).1) := .act .refl
  rwa [h] at hs

theorem steps_wait_ready {f : NvmeCqe → Drv α} {c : NvmeCqe} (hpoll : nvmePollCq (w.q i) = true)
    (hc : ((w.advanceCq i).q i).cqes (w.q i).cq.head = c) :
    Steps R w (nvmeWait i >>= f) ((w.advanceCq i).copyCqe i c) (f c) := by
  have hget : Steps R w (nvmeWait i) w
      (if nvmePollCq (w.q i) then nvmeConsumeCqe i else nvmeWaitLoop i 499) := .act .refl
  rw [if_pos hpoll] at hget
  have hadv : Steps R w (nvmeConsumeCqe i) (w.advanceCq i) (copyCqe i (w.q i).cq.head) := by
    have hs := Steps.act (R := R) (Steps.refl (w := w) (p := nvmeConsumeCqe i))
    simp only [hpoll, if_true] at hs
    exact hs
  have hcopy : Steps R (w.advanceCq i) (copyCqe i (w.q i).cq.head)
      ((w.advanceCq i).copyCqe i c) (.ret c) := by
    subst hc
    exact .act .refl
  exact ((hget.trans hadv).trans hcopy).bind f

end

theorem Marching.getNextSqe (h : Marching L n q) (hfree : (n + 1) &&& (L - 1) ≠ n)
    (opc metadata data data2 : Nat) :
    nvmeGetNextSqe q opc metadata data data2 = (some n, { q with
      sqes := Function.update q.sqes n (freshSqe n opc metadata data data2) }) := by
  rw [nvmeGetNextSqe, h.head, h.tail, h.sqMask, if_neg hfree]

/-- What follows the commit in `nvme_io_xfer`. -/
def ioOutcome (count : Nat) : Drv Int := do
  let cqe ← nvmeWait .io
  if nvmeIsCqeSuccess cqe then return count else return -1

/-- A command filled in and committed. -/
theorem Marching.submit {R : World → World → Prop} {α : Type} (f : Int → Drv α) {c : IoCmd}
    (hal : ¬ misaligned c.prp1 c.prp2) (h : Marching L n (w.q .io))
    (hfree : (n + 1) &&& (L - 1) ≠ n) : ∃ u sqes,
    Steps R w (nvmeIoXfer c.ns c.lba c.prp1 c.prp2 c.count c.write >>= f) u
      (ioOutcome c.count >>= f) ∧
    u.q .io = nvmeCommitSqe { w.q .io with sqes := sqes } ∧
    u.log = .commit .io n (sqes n) ((n + 1) &&& (L - 1)) :: w.log := by
  let opc := if c.write then nvmeSqeOpcIoWrite else nvmeSqeOpcIoRead
  let w₁ := w.setQ .io { w.q .io with
    sqes := Function.update (w.q .io).sqes n (freshSqe n opc 0 c.prp1 c.prp2) }
  let w₂ := w₁.setQ .io (fillSqe (w₁.q .io) n c.ns.nsId (u32 c.lba) (u32 (c.lba >>> 32))
    (1 <<< 31 ||| u32 (c.count + 4294967295)))
  have hget : Steps R w (nvmeIoXfer c.ns c.lba c.prp1 c.prp2 c.count c.write) w₁ (do
      fillIn .io (some n) c.ns.nsId (u32 c.lba) (u32 (c.lba >>> 32))
        (1 <<< 31 ||| u32 (c.count + 4294967295))
      commitSqe .io
      ioOutcome c.count) := by
    rw [nvmeIoXfer, if_neg hal]
    exact steps_getNextSqe (h.getNextSqe hfree _ _ _ _)
  have hfill : Steps R w₁ (do
      fillIn .io (some n) c.ns.nsId (u32 c.lba) (u32 (c.lba >>> 32))
        (1 <<< 31 ||| u32 (c.count + 4294967295))
      commitSqe .io
      ioOutcome c.count) w₂ (do
      commitSqe .io
      ioOutcome c.count) := .act .refl
  have hcommit : Steps R w₂ (do
      commitSqe .io
      ioOutcome c.count) (w₂.commitSqe .io) (ioOutcome c.count) := .act .refl
  have hq : w₂.q .io = { w.q .io with sqes := (w₂.q .io).sqes } := by
    simp only [w₂, w₁, World.setQ_q_same, fillSqe]
  refine ⟨w₂.commitSqe .io, (w₂.q .io).sqes, ((hget.trans hfill).trans hcommit).bind f, ?_, ?_⟩
  · rw [← hq, World.commitSqe, World.note_q, World.setQ_q_same]
  · have hsq : (w₂.q .io).sq = (w.q .io).sq := by rw [hq]
    rw [World.commitSqe, World.note_log, World.setQ_log, nvmeCommitSqe, hsq, h.tail, h.sqMask]
    rfl

/-- The pair after one more command, all the way from the commit to the consumed completion. -/
theorem Marching.round (h : Marching L n q) (hmask : (n + 1) &&& (L - 1) = n + 1) (hL : n + 1 < L)
    (sqes : Nat → NvmeSqe) {e : NvmeSqe} (he : sqes n = e) : ∃ q₃ q₄ q₅ q₆,
    q₃ = nvmeCommitSqe { q with sqes := sqes } ∧
    q₃.ctl.taken % q₃.ctl.sqLen ≠ q₃.ctl.tail ∧ q₄ = q₃.fetch ∧
    q₄.ctl.flight = [⟨e, n, none⟩] ∧ q₅ = q₄.settle 0 ⟨e, n, none⟩ 1 ∧
    q₅.ctl.flight = [⟨e, n, some 1⟩] ∧ (q₅.ctl.done.length + 1) % q₅.ctl.cqLen ≠ q₅.ctl.head ∧
    q₆ = q₅.post .io 0 ⟨e, n, some 1⟩ 1 ∧ nvmePollCq q₆ = true ∧
    nvmeIsCqeSuccess (q₆.cqes n) = false ∧ q₆.cq.head = n ∧ Marching L (n + 1) (nvmeAdvanceCq q₆) := by
  have hmod : n % L = n := Nat.mod_eq_of_lt (by omega)
  have hmod' : (n + 1) % L = n + 1 := Nat.mod_eq_of_lt hL
  obtain ⟨hsqMask, hcqMask, htail, hhead, hcqHead, hcqPhase, hsqLen, hcqLen, hctlTail, hctlHead,
    htaken, hflight, hdone⟩ := h
  refine ⟨_, _, _, _, rfl, ?_, rfl, ?_, rfl, ?_, ?_, rfl, ?_, ?_, ?_, ?_⟩
  · simp [nvmeCommitSqe, htaken, hsqLen, htail, hsqMask, hmask, hmod]
  · simp [nvmeCommitSqe, QPair.fetch, htaken, hsqLen, hflight, hmod, he]
  · simp [nvmeCommitSqe, QPair.fetch, QPair.settle, htaken, hsqLen, hflight, hmod, he]
  · simp [nvmeCommitSqe, QPair.fetch, QPair.settle, hdone, hcqLen, hctlHead, hmod']
  · have htag : ∀ c : NvmeCqe, c.cid < 65536 → c.status = 3 → c.tag = true := by
      intro c hc hs
      rw [tag_eq_phase c hc, NvmeCqe.phase, hs]
      rfl
    simp only [nvmePollCq, nvmeCommitSqe, QPair.fetch, QPair.settle, QPair.post, hdone, hcqLen, hmod,
      hcqHead, hcqPhase, Function.update_self, beq_true]
    refine htag _ (Nat.mod_lt _ (by decide)) ?_
    simp [CtlQueue.completion, hdone, phase, Nat.div_eq_of_lt (show n < L by omega)]
  · simp [nvmeCommitSqe, QPair.fetch, QPair.settle, QPair.post, CtlQueue.completion, hdone, hcqLen,
      hmod, nvmeIsCqeSuccess, phase, Nat.div_eq_of_lt (show n < L by omega)]
  · simp [nvmeCommitSqe, QPair.fetch, QPair.settle, QPair.post, hcqHead]
  · constructor <;> simp [nvmeAdvanceCq, nvmeCommitSqe, QPair.fetch, QPair.settle, QPair.post,
      CtlQueue.completion, *]

/-- The controller takes a committed command, fails it and posts its completion. -/
theorem env_failed {e : NvmeSqe} {q₃ q₄ q₅ : QPair} (h₃ : w.q .io = q₃)
    (hne : q₃.ctl.taken % q₃.ctl.sqLen ≠ q₃.ctl.tail) (h₄ : q₄ = q₃.fetch)
    (hf₄ : q₄.ctl.flight = [⟨e, n, none⟩]) (h₅ : q₅ = q₄.settle 0 ⟨e, n, none⟩ 1)
    (hf₅ : q₅.ctl.flight = [⟨e, n, some 1⟩])
    (hroom : (q₅.ctl.done.length + 1) % q₅.ctl.cqLen ≠ q₅.ctl.head) : ∃ v,
    Env (Nvmec anyStatus) w v ∧ v.q .io = q₅.post .io 0 ⟨e, n, some 1⟩ 1 ∧ v.log = w.log := by
  have hfetch : nvmeMove anyStatus (.fetch .io) w = some (w.setQ .io q₄) := by
    rw [nvmeMove, h₃, if_neg hne, h₄]
  have hfail : nvmeMove anyStatus (.fail .io 0 1) (w.setQ .io q₄) =
      some ((w.setQ .io q₄).setQ .io q₅) := by
    simp [nvmeMove, hf₄, anyStatus, h₅]
  have hpost : nvmeMove anyStatus (.post .io 0) ((w.setQ .io q₄).setQ .io q₅) =
      some (((w.setQ .io q₄).setQ .io q₅).setQ .io (q₅.post .io 0 ⟨e, n, some 1⟩ 1)) := by
    simp [nvmeMove, hf₅, hroom]
  exact ⟨_, .tail (.tail (.tail .refl ⟨_, hfetch⟩) ⟨_, hfail⟩) ⟨_, hpost⟩, World.setQ_q_same .., rfl⟩

/-- A command of a marching queue: filled in, committed, fetched, failed, posted and consumed. -/
theorem march {f : Int → Drv Unit} {c : IoCmd} (hL : 2 ^ t < L)
    (hmask : ∀ x < 2 ^ t, x &&& (L - 1) = x) (hal : ¬ misaligned c.prp1 c.prp2)
    (h : Marching L n (w.q .io)) (hn : n + 1 < 2 ^ t) : ∃ v,
    Steps (Nvmec anyStatus) w (nvmeIoXfer c.ns c.lba c.prp1 c.prp2 c.count c.write >>= f) v
      (f (-1)) ∧ Marching L (n + 1) (v.q .io) ∧ commits .io v.log = commits .io w.log + 1 := by
  have hmask' := hmask (n + 1) hn
  obtain ⟨u, sqes, hsub, huq, hulog⟩ := h.submit (R := Nvmec anyStatus) f hal (by omega)
  obtain ⟨q₃, q₄, q₅, q₆, h₃, hne, h₄, hf₄, h₅, hf₅, hroom, h₆, hpoll, hfail, hhead, hmarch⟩ :=
    h.round hmask' (by omega) sqes rfl
  obtain ⟨x, henv, hxq, hxlog⟩ := env_failed (huq.trans h₃.symm) hne h₄ hf₄ h₅ hf₅ hroom
  rw [← h₆] at hxq
  have hcqe : ((x.advanceCq .io).q .io).cqes (x.q .io).cq.head = q₆.cqes n := by
    rw [World.advanceCq, World.note_q, World.setQ_q_same, hxq, hhead]
    rfl
  have hwait : Steps (Nvmec anyStatus) x (ioOutcome c.count)
      ((x.advanceCq .io).copyCqe .io (q₆.cqes n)) (.ret (-1)) := by
    have hs := steps_wait_ready (R := Nvmec anyStatus) (w := x) (i := .io)
      (f := fun cqe => if nvmeIsCqeSuccess cqe then pure (c.count : Int) else pure (-1))
      (by rw [hxq]; exact hpoll) hcqe
    rwa [hfail, if_neg (by decide)] at hs
  refine ⟨_, (hsub.trans (.of_env henv)).trans (hwait.bind f), ?_, ?_⟩
  · rw [World.copyCqe_q, World.advanceCq, World.note_q, World.setQ_q_same, hxq]
    exact hmarch
  · rw [World.copyCqe_log, World.advanceCq, World.note_log, World.setQ_log, hxlog, hulog]
    rw [commits, trail_cons_same rfl, trail_cons_same rfl, trail_cons_same rfl]
    simp [List.countP_cons, Event.isCommit, commits]

/-- Any number of commands on the first pass. -/
theorem marches {c : IoCmd} (hL : 2 ^ t < L) (hmask : ∀ x < 2 ^ t, x &&& (L - 1) = x)
    (hal : ¬ misaligned c.prp1 c.prp2) (rest : List IoCmd) : ∀ (m n : Nat) (w : World),
    Marching L n (w.q .io) → commits .io w.log = n → n + m < 2 ^ t → ∃ v,
      Steps (Nvmec anyStatus) w (ioCommands (List.replicate m c ++ rest)) v (ioCommands rest) ∧
      Marching L (n + m) (v.q .io) ∧ commits .io v.log = n + m := by
  intro m
  induction m with
  | zero => exact fun n w h hc _ => ⟨w, .refl, h, hc⟩
  | succ m ih =>
    intro n w h hc hn
    obtain ⟨u, hs, hu, hcu⟩ := march (f := fun _ => ioCommands (List.replicate m c ++ rest))
      hL hmask hal h (by omega)
    obtain ⟨v, hs', hv, hcv⟩ := ih (n + 1) u hu (by omega) (by omega)
    refine ⟨v, hs.trans hs', ?_, ?_⟩
    · rwa [show n + (m + 1) = n + 1 + m by omega]
    · omega

/-- Command `2 ^ t`, at the lowest clear bit of the mask, is given tail 0 instead of `2 ^ t`. -/
theorem drifts {c : IoCmd} (ht : 1 ≤ t) (hL : 2 ^ t < L) (hmask : ∀ x < 2 ^ t, x &&& (L - 1) = x)
    (hclear : 2 ^ t &&& (L - 1) = 0) (hal : ¬ misaligned c.prp1 c.prp2)
    (h : Marching L 0 (w.q .io)) (hc : commits .io w.log = 0) : ∃ v p,
      Steps (Nvmec anyStatus) w (ioCommands (List.replicate (2 ^ t) c)) v p ∧
      ¬ PositionsAgree L v.log := by
  have h2 : 2 ≤ 2 ^ t := calc 2 = 2 ^ 1 := rfl
    _ ≤ 2 ^ t := Nat.pow_le_pow_right (by omega) ht
  have hlast : 2 ^ t - 1 + 1 = 2 ^ t := by omega
  obtain ⟨u, hs, hu, hcu⟩ := marches hL hmask hal [c] (2 ^ t - 1) 0 w h hc (by omega)
  rw [Nat.zero_add] at hu hcu
  obtain ⟨v, sqes, hsub, _, hlog⟩ := hu.submit (R := Nvmec anyStatus) (fun _ => ioCommands []) hal
    (by rw [hlast, hclear]; omega)
  rw [← List.replicate_succ', hlast] at hs
  refine ⟨v, _, hs.trans hsub, fun hp => ?_⟩
  have htail := (hp.tails [] u.log _ _ _ hlog).2
  rw [hlast, hclear, hcu, hlast, Nat.mod_eq_of_lt hL] at htail
  omega

theorem Created.told_marching {c : Nat} (h : Created c 4 v) :
    Marching (ioQueueLength c) 0 (v.told.q .io) := by
  have hcq := h.cq (by omega)
  have hsq := h.sq (by omega)
  rw [World.told, World.setQ_q_same, h.cqLen (by omega), h.sqLen (by omega)]
  exact ⟨hsq.mask, hcq.mask, hsq.tail, hsq.head, hcq.head, hcq.phase, rfl, rfl, rfl, rfl, rfl, rfl,
    rfl⟩

/-! ### Which lengths are right -/

/-- In every run of any I/O commands the positions agree, and no entry is missing before a wait has
    given up. A missing entry is stored through and committed all the same: the doorbell hands over
    one that was not filled in. -/
def AlwaysAgree (L : Nat) (w : World) : Prop :=
  ∀ cmds v p, Steps (Nvmec anyStatus) w (ioCommands cmds) v p →
    PositionsAgree L v.log ∧ (p = .halt .nullSqe → .timeout .io ∈ v.log)

/-- An aligned command comes to the missing entry. -/
theorem steps_missing {R : World → World → Prop} {c : IoCmd} (hal : ¬ misaligned c.prp1 c.prp2)
    (h : ∀ opc metadata data data2,
      nvmeGetNextSqe (w.q .io) opc metadata data data2 = (none, w.q .io)) :
    Steps R w (ioCommands [c]) w (.halt .nullSqe) := by
  have hself : w.setQ .io (w.q .io) = w := by simp [World.setQ]
  have hx : Steps R w (nvmeIoXfer c.ns c.lba c.prp1 c.prp2 c.count c.write) w (.halt .nullSqe) := by
    rw [nvmeIoXfer, if_neg hal]
    refine .act_bind ?_
    simp only [h, hself]
    exact .refl
  exact hx.bind _

/-- The very first command on a shut queue. -/
theorem Shut.not_agree (h : Shut w) : ¬ AlwaysAgree L w := by
  intro hall
  let c : IoCmd := ⟨⟨1, 1, 1, 0, 1⟩, 0, 0, 0, 1, false⟩
  have hrun : Steps (Nvmec anyStatus) w (ioCommands [c]) w (.halt .nullSqe) :=
    steps_missing (by decide) h.getNextSqe
  have hmem := timeout_mem_trail.mpr ((hall _ _ _ hrun).2 rfl)
  rw [h.trail] at hmem
  cases hmem

/-- Where the mask has a gap below its top the positions drift apart. -/
theorem Created.drifts {c : Nat} (h : Created c 4 v) (heven : ioQueueLength c % 2 = 0)
    (hnot : ∀ k, ioQueueLength c ≠ 2 ^ k) : ¬ AlwaysAgree (ioQueueLength c) v.told := by
  have hpos := (ioQueueLength_bounds c).1
  obtain ⟨t, hle, hclear, hmask⟩ := lowest_clear_bit (ioQueueLength c - 1) fun k => by
    rw [Nat.sub_add_cancel hpos]
    exact hnot k
  have ht : 1 ≤ t := by
    rcases Nat.eq_zero_or_pos t with rfl | ht
    · rw [Nat.pow_zero, Nat.and_comm, Nat.and_one_is_mod] at hclear
      omega
    · exact ht
  have hc : commits .io v.told.log = 0 := by
    rw [commits, show v.told.log = v.log from rfl, h.trail]
    rfl
  obtain ⟨u, p, hrun, hne⟩ := Nvme.drifts (c := ⟨⟨1, 1, 1, 0, 1⟩, 0, 0, 0, 1, false⟩) ht (by omega)
    hmask hclear (by decide) h.told_marching hc
  exact fun hall => hne (hall _ u p hrun).1

theorem Created.agree {c : Nat} [Fact (Pow2 (ioQueueLength c))] (h : Created c 4 v) :
    AlwaysAgree (ioQueueLength c) v.told := by
  intro cmds u p hio
  have hctl := (obeys_ioCommands cmds _ h.told_settled u p hio).1
  refine ⟨AllRight.positions hctl.allRight, ?_⟩
  rintro rfl
  exact (wp_ioCommands_settled cmds _ h.told_settled u _ hio).2

/-- CORRECT: the driver declares the length `L` that MQES gives, up to 256, for both queues; over
    every run of I/O commands its ring positions are the controller's, and each doorbell hands over
    an entry filled in, exactly if `L` is a power of two, at least 2. After a wait that gave up there
    is no entry for the next command, whatever the length. -/
theorem positions_agree_iff {w v : World} (hrun : Steps CreateEnv w nvmeCreateIoQueues v (.ret 0))
    (htrail : trail .io w.log = []) :
    declaredLen nvmeSqeOpcAdminCreateIoCq v.log = ioQueueLength w.reg.cap ∧
    declaredLen nvmeSqeOpcAdminCreateIoSq v.log = ioQueueLength w.reg.cap ∧
    (AlwaysAgree (ioQueueLength w.reg.cap) v.told ↔ Pow2 (ioQueueLength w.reg.cap)) ∧
    (Pow2 (ioQueueLength w.reg.cap) →
      ∀ cmds u, Steps (Nvmec anyStatus) v.told (ioCommands cmds) u (.ret ()) → .timeout .io ∈ u.log →
      ∀ c : IoCmd, ¬ misaligned c.prp1 c.prp2 →
        Steps (Nvmec anyStatus) u (ioCommands [c]) u (.halt .nullSqe)) := by
  have h := created_of_run hrun htrail
  have hpos := (ioQueueLength_bounds w.reg.cap).1
  refine ⟨h.cqLen (by omega), h.sqLen (by omega), ⟨fun hall => ?_, fun hp => ?_⟩, ?_⟩
  · rcases Nat.mod_two_eq_zero_or_one (ioQueueLength w.reg.cap) with heven | hodd
    · by_contra hnot
      refine h.drifts heven (fun k hk => hnot ⟨k, ?_, hk⟩) hall
      rcases Nat.eq_zero_or_pos k with rfl | hk1
      · rw [hk] at heven
        cases heven
      · exact hk1
    · exact absurd hall (h.told_shut hodd).not_agree
  · have : Fact (Pow2 (ioQueueLength w.reg.cap)) := ⟨hp⟩
    exact h.agree
  · intro hp cmds u hio hgave c hal
    have : Fact (Pow2 (ioQueueLength w.reg.cap)) := ⟨hp⟩
    have hset := (obeys_ioCommands cmds _ h.told_settled u _ hio).2
    exact steps_missing hal fun _ _ _ _ => (hset.missing _ _ _ _).mpr hgave

/-- An initialised admin pair, and MQES 5. -/
def sixStart : World :=
  { bareWorld 5 fun n => some (sampleBlock n) with q := fun _ => freshPair .admin 64 256 }

/-- The device answers both create commands. -/
def sixScript : List (Option DeviceAct) := List.flatten [
  driverActs 10, [some (.complete 0)], driverActs 13, [some (.complete 0)], driverActs 4]

def sixCreated : World × Drv Int := follow deviceAct sixScript sixStart nvmeCreateIoQueues

/-- Read block 0 into the page at 1 MiB. -/
def sixCmd : IoCmd := ⟨⟨1, 1000, 512, 0, 8⟩, 0, 0x100000, 0, 1, false⟩

/-- The first command is completed, the second committed. -/
def sixRun : World × Drv Unit :=
  follow (nvmeMove anyStatus) (oneCommand .io ++ [none, none, none]) sixCreated.1.told
    (ioCommands [sixCmd, sixCmd])

theorem deviceAct_createEnv (h : Moves deviceAct w v) : CreateEnv w v := by
  have hh := deviceAct_hostile h
  obtain ⟨m, hm⟩ := h
  cases m with
  | csts x => cases hm; exact ⟨hh, rfl, rfl⟩
  | poke a b => cases hm; exact ⟨hh, rfl, rfl⟩
  | complete sf => cases hm; exact ⟨hh, rfl, by rw [World.setQ_q_ne _ _ (by decide)]⟩

theorem sixCreated_run : Steps CreateEnv sixStart nvmeCreateIoQueues sixCreated.1 (.ret 0) :=
  follow_ret (by decide +kernel) fun _ _ => deviceAct_createEnv

/-- Six entries are declared, and the second command is given tail 0. -/
theorem positions_drift : declaredLen nvmeSqeOpcAdminCreateIoSq sixCreated.1.log = 6 ∧
    Steps CreateEnv sixStart nvmeCreateIoQueues sixCreated.1 (.ret 0) ∧
    Steps (Nvmec anyStatus) sixCreated.1.told (ioCommands [sixCmd, sixCmd]) sixRun.1 sixRun.2 ∧
    ¬ PositionsAgree 6 sixRun.1.log := by
  let e := cmdSqe 1 nvmeSqeOpcIoRead 0 0x100000 0 1 0 0 (1 <<< 31)
  have hlast : sixRun.1.log = .commit .io 1 e 0 :: sixRun.1.log.tail := by decide +kernel
  have hcount : commits .io sixRun.1.log.tail = 1 := by decide +kernel
  refine ⟨by decide +kernel, sixCreated_run, follow_steps .., fun h => ?_⟩
  have htail := (h.tails [] _ _ _ _ hlast).2
  rw [hcount] at htail
  cases htail

theorem positions_agree_iff_sample : ioQueueLength sixStart.reg.cap = 6 ∧
    declaredLen nvmeSqeOpcAdminCreateIoCq sixCreated.1.log = ioQueueLength sixStart.reg.cap ∧
    declaredLen nvmeSqeOpcAdminCreateIoSq sixCreated.1.log = ioQueueLength sixStart.reg.cap ∧
    (AlwaysAgree (ioQueueLength sixStart.reg.cap) sixCreated.1.told ↔
      Pow2 (ioQueueLength sixStart.reg.cap)) ∧
    (Pow2 (ioQueueLength sixStart.reg.cap) →
      ∀ cmds u, Steps (Nvmec anyStatus) sixCreated.1.told (ioCommands cmds) u (.ret ()) →
      .timeout .io ∈ u.log → ∀ c : IoCmd, ¬ misaligned c.prp1 c.prp2 →
        Steps (Nvmec anyStatus) u (ioCommands [c]) u (.halt .nullSqe)) :=
  ⟨by decide, positions_agree_iff sixCreated_run rfl⟩

end Nvme
