import NvmeDisk.Setup.Finding

/-! How long the set-up can take, whatever the device does, and that it stays away from the disk: each
    function has a bound on its actions, and none of these gives the controller work on the I/O pair. -/

namespace Nvme
open Bytes BlockDev Resume

/-- An action of the set-up: the log grows, and neither the controller's side of the I/O pair nor the
    disk changes. -/
structure Mild (w v : World) : Prop where
  log : Grows w v
  io : (v.q .io).ctl = (w.q .io).ctl
  disk : v.store.disk = w.store.disk

/-- Mild actions only, `n` at most. -/
abbrev Mildly {α : Type} (n : Nat) (p : Drv α) : Prop := p.Takes Mild n

variable {mayFail : Nat → Bool} {w v : World} {i : QId} {n m : Nat} {α β : Type}

theorem Mild.refl (w : World) : Mild w w := ⟨.quiet rfl, rfl, rfl⟩

theorem Mild.onQueue {c : Bool} (h : OnQueue .admin c w v) : Mild w v where
  log := by
    rcases h.log with hl | ⟨ev, _, _, hl⟩
    · exact .quiet hl
    · exact .note hl
  io := by rw [h.other .io (by decide)]
  disk := by rw [h.store]

theorem mild_setQ (w : World) {q : QPair} (h : i = .io → q.ctl = (w.q i).ctl) : Mild w (w.setQ i q) := by
  refine ⟨.quiet rfl, ?_, rfl⟩
  cases i with
  | admin => rw [World.setQ_q_ne _ _ (by decide)]
  | io => rw [World.setQ_q_same, h rfl]

theorem Mild.note (h : Mild w v) (ev : Event) : Mild w (v.note ev) where
  log := h.log.trans (.note rfl)
  io := h.io
  disk := h.disk

theorem mildly_get {k : β → Drv α} {g : World → β} (hk : ∀ b, Mildly n (k b)) :
    Mildly (n + 1) (Prog.get g >>= k) := .get_bind .refl fun _ => hk _

theorem mildly_getUsed {k : Nat → Drv β} {f : Nat → Used} {g : World → Nat} (hk : ∀ a, Mildly n (k a)) :
    Mildly (n + 1) (getUsed f g >>= k) := .atom (fun _ => ⟨.quiet rfl, rfl, rfl⟩) fun _ => hk _

theorem mildly_setQ {f : World → World} (hf : ∀ w, ∃ q, f w = w.setQ i q ∧ q.ctl = (w.q i).ctl) :
    Mildly 1 (Prog.modify f) :=
  .modify fun w => by
    obtain ⟨q, hq, hctl⟩ := hf w
    rw [hq]
    exact mild_setQ w fun _ => hctl

theorem mildly_zalloc (site : Site) (size : Nat) : Mildly 1 (zallocPageAligned site size) := by
  refine .act fun w => ?_
  dsimp only
  split <;> exact ⟨.quiet rfl, rfl, rfl⟩

theorem mildly_malloc (site : Site) (size : Nat) : Mildly 1 (malloc site size) :=
  .act fun _ => ⟨.quiet rfl, rfl, rfl⟩

theorem mildly_free (a : Nat) : Mildly 1 (free a) := by
  refine .modify fun w => ?_
  rw [World.free]
  split
  · exact .refl w
  · exact ⟨.note rfl, rfl, rfl⟩

theorem mildly_note (ev : Event) : Mildly 1 (note ev) := .modify fun _ => ⟨.note rfl, rfl, rfl⟩

/-! ### Commands on the admin pair -/

theorem mild_admin (w : World) (q : QPair) : Mild w (w.setQ .admin q) := mild_setQ w fun h => by cases h

theorem mildly_wait : Mildly 502 (nvmeWait .admin) := by
  have hconsume : Mildly 2 (nvmeConsumeCqe .admin) := by
    refine .bind (n := 1) (m := 1) (.act fun w => ?_) fun slot => ?_
    · split
      · exact (mild_admin w _).note _
      · exact .refl w
    · cases slot with
      | none => exact .ret
      | some s => exact .act fun _ => ⟨.note rfl, rfl, rfl⟩
  have hloop : ∀ k, Mildly (k + 2) (nvmeWaitLoop .admin k) := by
    intro k
    induction k with
    | zero => exact .bind (n := 1) (m := 1) (mildly_note _) fun _ => .ret
    | succ k ih =>
      refine mildly_get (n := k + 2) fun ready => ?_
      split
      · exact hconsume.mono (by omega)
      · exact ih
  exact hloop 500

theorem mildly_submit {opc metadata data data2 nsid dword10 dword11 dword12 : Nat} {full : Drv α}
    {k : NvmeCqe → Drv α} (hfull : Mildly n full) (hk : ∀ c, Mildly n (k c)) :
    Mildly (505 + n) (do
      match ← getNextSqe .admin opc metadata data data2 with
      | none => full
      | some slot =>
        fillIn .admin (some slot) nsid dword10 dword11 dword12
        commitSqe .admin
        let cqe ← nvmeWait .admin
        k cqe) := by
  have hget : Mildly 1 (getNextSqe .admin opc metadata data data2) := .act fun w =>
    .onQueue (c := false) (.setQ w (by simp only [nvmeGetNextSqe]; split <;> rfl)
      (by simp only [nvmeGetNextSqe]; split <;> rfl))
  have hfill : ∀ s, Mildly 1 (fillIn .admin (some s) nsid dword10 dword11 dword12) := fun s =>
    .modify fun w => .onQueue (c := false) (.setQ w rfl rfl)
  have hcommit : Mildly 1 (commitSqe .admin) := .modify fun w =>
    (mild_admin w _).note _
  refine (Prog.Takes.bind (n := 1) (m := 504 + n) hget fun slot => ?_).mono (by omega)
  cases slot with
  | none => exact hfull.mono (by omega)
  | some s =>
    refine (Prog.Takes.bind (n := 1) (m := 503 + n) (hfill s) fun _ => ?_).mono (by omega)
    exact (Prog.Takes.bind (n := 1) hcommit fun _ => .bind mildly_wait hk).mono (by omega)

theorem mildly_identify (cns nsid : Nat) : Mildly (508) (nvmeAdminIdentify cns nsid) := by
  refine (Prog.Takes.bind (n := 1) (m := 507) (mildly_zalloc _ _) fun id => ?_).mono (by omega)
  split
  · exact .bind (n := 1) (m := 506) (mildly_note _) fun _ => .ret
  · refine mildly_submit (n := 2) ?_ fun c => ?_
    · exact .bind (n := 1) (m := 1) (mildly_note _) fun _ => .bind (m := 0) (mildly_free _) fun _ => .ret
    · split
      · exact .ret
      · exact .bind (n := 1) (m := 1) (mildly_free _) fun _ => .ret

/-! ### The queues -/

theorem mildly_initRing (r : RingId) (qIdx length : Nat) : Mildly 4 (initRing r qIdx length) := by
  refine .bind (n := 1) (m := 3) (mildly_setQ fun w => setCommon_pair w r _ _) fun _ => ?_
  refine .bind (n := 1) (m := 2) (mildly_zalloc _ _) fun a => ?_
  refine .bind (n := 1) (m := 1) (mildly_setQ fun w => setRing_pair w r a) fun _ => ?_
  split
  · exact .bind (n := 1) (m := 0) (mildly_note _) fun _ => .ret
  · exact .bind (n := 1) (m := 0) (mildly_setQ fun w => initRing_pair w r _ _ a) fun _ => .ret

theorem mildly_destroyCq : Mildly 3 (nvmeDestroyCq i) :=
  mildly_get (n := 2) fun _ =>
    .bind (n := 1) (m := 1) (mildly_free _) fun _ => mildly_setQ fun _ => ⟨_, rfl, rfl⟩

theorem mildly_destroySq : Mildly 3 (nvmeDestroySq i) :=
  mildly_get (n := 2) fun _ =>
    .bind (n := 1) (m := 1) (mildly_free _) fun _ => mildly_setQ fun _ => ⟨_, rfl, rfl⟩

theorem mildly_createIoCq (qIdx : Nat) : Mildly 514 (nvmeCreateIoCq qIdx) := by
  refine mildly_get (n := 513) fun cap => ?_
  refine (Prog.Takes.bind (n := 4) (m := 509) (mildly_initRing (.cq _) _ _) fun rc => ?_).mono (by omega)
  split
  · exact .ret
  · refine mildly_get (n := 508) fun cq => mildly_submit (n := 3) ?_ fun c => ?_
    · exact .bind (m := 0) mildly_destroyCq fun _ => .ret
    · split
      · exact .ret
      · exact .bind (m := 0) mildly_destroyCq fun _ => .ret

theorem mildly_createIoSq (qIdx : Nat) : Mildly 514 (nvmeCreateIoSq qIdx) := by
  refine mildly_get (n := 513) fun cap => ?_
  refine (Prog.Takes.bind (n := 4) (m := 509) (mildly_initRing (.sq _) _ _) fun rc => ?_).mono (by omega)
  split
  · exact .ret
  · refine mildly_get (n := 508) fun sq => mildly_submit (n := 3) ?_ fun c => ?_
    · exact .bind (m := 0) mildly_destroySq fun _ => .ret
    · split
      · exact .ret
      · exact .bind (m := 0) mildly_destroySq fun _ => .ret

theorem mildly_createIoQueues : Mildly 1031 nvmeCreateIoQueues := by
  refine (Prog.Takes.bind (m := 517) (mildly_createIoCq 3) fun rc => ?_).mono (by omega)
  split
  · exact .ret
  · refine .bind (m := 3) (mildly_createIoSq 2) fun rc => ?_
    split
    · exact .bind (m := 0) mildly_destroyCq fun _ => .ret
    · exact .ret

/-! ### The namespaces -/

theorem mildly_ensureDmaBuffer : Mildly 4 ensureDmaBuffer := by
  refine mildly_get (n := 3) fun dma => ?_
  split
  · exact .ret
  · refine .bind (n := 1) (m := 2) (mildly_zalloc _ _) fun a => ?_
    refine .bind (n := 1) (m := 1) (.modify fun _ => ⟨.quiet rfl, rfl, rfl⟩) fun _ => ?_
    split
    · exact .bind (n := 1) (m := 0) (mildly_note _) fun _ => .ret
    · exact .ret

theorem mildly_recordNs (id nsId mdts fmt : Nat) : Mildly 8 (recordNs id nsId mdts fmt) := by
  refine .bind (n := 1) (m := 7) (mildly_malloc _ _) fun rec => ?_
  refine .bind (n := 1) (m := 6) (.modify fun _ => ⟨.quiet rfl, rfl, rfl⟩) fun _ => ?_
  split
  · exact (mildly_note _).mono (by omega)
  · refine mildly_get (n := 5) fun _ => mildly_getUsed (n := 4) fun _ => mildly_getUsed (n := 3) fun _ => ?_
    dsimp only
    split
    · refine .bind (n := 1) (m := 2) (.modify fun _ => ⟨.quiet rfl, rfl, rfl⟩) fun _ => ?_
      exact .bind (n := 1) (m := 1) (mildly_note _) fun _ => mildly_free _
    · exact (Prog.Takes.modify fun _ => ⟨.note rfl, rfl, rfl⟩).mono (by omega)

theorem mildly_probeNs (nsIdx mdts : Nat) : Mildly 524 (nvmeProbeNs nsIdx mdts) := by
  have hchecks : ∀ id nsId, Mildly 15 (probeIdentified id nsId mdts) := by
    intro id nsId
    refine mildly_get (n := 14) fun _ => mildly_get (n := 13) fun _ => ?_
    split
    · exact .ret
    · refine mildly_get (n := 12) fun _ => ?_
      split
      · exact .ret
      · refine .bind (n := 4) (m := 8) mildly_ensureDmaBuffer fun dma => ?_
        split
        · exact .ret
        · exact mildly_recordNs _ _ _ _
  refine (Prog.Takes.bind (m := 16) (mildly_identify _ _) fun id => ?_).mono (by omega)
  split
  · exact .ret
  · exact .bind (n := 15) (m := 1) (hchecks _ _) fun _ => mildly_free _

theorem mildly_probeLoop (mdts : Nat) : ∀ n nsIdx, Mildly (524 * n) (probeLoop mdts n nsIdx)
  | 0, _ => .ret
  | n + 1, nsIdx => by
    refine (Prog.Takes.bind (mildly_probeNs nsIdx mdts) fun _ => mildly_probeLoop mdts n (nsIdx + 1)).mono ?_
    rw [Nat.mul_succ, Nat.add_comm]

/-! ### The controller -/

/-- CAP.TO is a byte. -/
theorem mildly_waitCstsRdy (rdy : Nat) : Mildly 127502 (nvmeWaitCstsRdy rdy) := by
  have hloop : ∀ n, Mildly (n + 1) (cstsLoop rdy n) := by
    intro n
    induction n with
    | zero => exact .bind (n := 1) (m := 0) (mildly_note _) fun _ => .ret
    | succ n ih =>
      refine mildly_getUsed (n := n + 1) fun csts => ?_
      split
      · exact .ret
      · split
        · exact .ret
        · exact ih
  refine mildly_get (n := 127501) fun cap => (hloop _).mono ?_
  have hbyte : (cap >>> 24) &&& 0xFF ≤ 255 := Nat.and_le_right
  omega

theorem mildly_destroyAdminQueues : Mildly 6 destroyAdminQueues :=
  .bind (n := 3) (m := 3) mildly_destroySq fun _ => .bind (n := 3) (m := 0) mildly_destroyCq fun _ => .ret

section
variable {M : Nat} (hM : 4294967295 ≤ M)
include hM

/-- The controller may claim `2 ^ 32 - 1` namespaces. -/
theorem mildly_enableIdentified : Mildly (1543 + 524 * M) enableIdentified := by
  refine (Prog.Takes.bind (m := 1035 + 524 * M) (mildly_identify _ _) fun id => ?_).mono (by omega)
  split
  · exact mildly_destroyAdminQueues.mono (by omega)
  refine (Prog.Takes.atom (n := 1034 + 524 * M) (fun _ => ⟨.quiet rfl, rfl, rfl⟩) fun w => ?_).mono (by omega)
  dsimp only
  have hnn : (identifyCtrlAt w.store.mem id).nn < 4294967296 := load_lt _ 4 _
  generalize (identifyCtrlAt w.store.mem id).nn = nn at hnn
  refine (Prog.Takes.bind (n := 1) (m := 1033 + 524 * M) (.modify fun _ => ⟨.quiet rfl, rfl, rfl⟩)
    fun _ => ?_).mono (by omega)
  refine (mildly_get (n := 1032 + 524 * M) fun mdts => ?_).mono (by omega)
  refine (Prog.Takes.bind (m := 1031 + 524 * M) (mildly_free _) fun _ => ?_).mono (by omega)
  split
  · exact mildly_destroyAdminQueues.mono (by omega)
  refine .bind mildly_createIoQueues fun rc => ?_
  split
  · exact mildly_destroyAdminQueues.mono (by omega)
  refine (Prog.Takes.bind (m := 0) (mildly_probeLoop mdts nn 0) fun _ => .ret).mono ?_
  exact Nat.mul_le_mul_left _ (by omega)

theorem mildly_controllerEnable : Mildly (256562 + 524 * M) nvmeControllerEnable := by
  refine (Prog.Takes.bind (n := 1) (m := 256561 + 524 * M) (.modify fun _ => ⟨.note rfl, rfl, rfl⟩)
    fun _ => ?_).mono (by omega)
  refine (Prog.Takes.bind (m := 129059 + 524 * M) (mildly_waitCstsRdy 0) fun rc => ?_).mono (by omega)
  split
  · exact .ret
  refine (mildly_get (n := 129058 + 524 * M) fun cap => ?_).mono (by omega)
  refine (Prog.Takes.bind (n := 1) (m := 129057 + 524 * M) (.modify fun _ => ⟨.quiet rfl, rfl, rfl⟩)
    fun _ => ?_).mono (by omega)
  refine (Prog.Takes.bind (m := 129053 + 524 * M) (mildly_initRing (.cq _) _ _) fun rc => ?_).mono (by omega)
  split
  · exact .ret
  refine (Prog.Takes.bind (m := 129049 + 524 * M) (mildly_initRing (.sq _) _ _) fun rc => ?_).mono (by omega)
  split
  · exact (Prog.Takes.bind (m := 0) mildly_destroyCq fun _ => .ret).mono (by omega)
  refine (Prog.Takes.bind (n := 1) (m := 129048 + 524 * M) (.modify fun _ => ⟨.quiet rfl, rfl, rfl⟩)
    fun _ => ?_).mono (by omega)
  refine (Prog.Takes.bind (n := 1) (m := 129047 + 524 * M) (.modify fun _ => ⟨.note rfl, rfl, rfl⟩)
    fun _ => ?_).mono (by omega)
  refine (Prog.Takes.bind (n := 1) (m := 129046 + 524 * M) (.modify fun _ => ⟨.note rfl, rfl, rfl⟩)
    fun _ => ?_).mono (by omega)
  refine (Prog.Takes.bind (n := 1) (m := 129045 + 524 * M) (.modify fun _ => ⟨.note rfl, rfl, rfl⟩)
    fun _ => ?_).mono (by omega)
  refine (Prog.Takes.bind (m := 1543 + 524 * M) (mildly_waitCstsRdy 1) fun rc => ?_).mono (by omega)
  split
  · exact mildly_destroyAdminQueues.mono (by omega)
  · exact mildly_enableIdentified hM

theorem mildly_controllerSetup (nvmeBase : Nat) : Mildly (256566 + 524 * M) (nvmeControllerSetup nvmeBase) := by
  unfold nvmeControllerSetup
  split
  · exact .ret
  refine (mildly_get (n := 256565 + 524 * M) fun cap => ?_).mono (by omega)
  split
  · exact .ret
  refine (Prog.Takes.bind (m := 256564 + 524 * M) (mildly_zalloc _ _) fun ctrl => ?_).mono (by omega)
  split
  · exact (Prog.Takes.bind (m := 0) (mildly_note _) fun _ => .ret).mono (by omega)
  refine (Prog.Takes.bind (n := 1) (m := 256563 + 524 * M) (.modify fun _ => ⟨.quiet rfl, rfl, rfl⟩)
    fun _ => ?_).mono (by omega)
  refine (Prog.Takes.bind (m := 1) (mildly_controllerEnable hM) fun rc => ?_).mono (by omega)
  split
  · exact .bind (n := 1) (m := 0) (mildly_free _) fun _ => .ret
  · exact .ret

end

/-! ### In any environment -/

/-- CORRECT: no device can hold the set-up up. Every path through it has a bounded number of actions, and
    none of them stores through a missing entry. -/
theorem setup_bounded (nvmeBase : Nat) :
    Bounded (256566 + 524 * 4294967295) (nvmeControllerSetup nvmeBase) ∧
      ∀ (R : World → World → Prop) w v x, ¬ Steps R w (nvmeControllerSetup nvmeBase) v (.halt x) := by
  have htakes := mildly_controllerSetup (le_refl 4294967295) nvmeBase
  have hkeeps := htakes.does.keeps (P := fun _ => True) fun _ _ _ _ => trivial
  refine ⟨htakes.within.weaken fun _ _ h => h.log, fun R w v x hrun => ?_⟩
  have htrue : Stable R fun _ => True := fun _ _ _ _ => trivial
  exact (wp_keeps htrue hkeeps trivial v _ hrun).2

/-- The disk is as it was, and the controller has no work on the I/O pair. -/
structure Spare (w v : World) : Prop where
  disk : v.store.disk = w.store.disk
  work : (v.q .io).ctl.NoWork

theorem spare_stable : Stable (Powered mayFail) (Spare w) := by
  intro x y h hr
  refine ⟨(hr.disk h.work).trans h.disk, ?_⟩
  obtain ⟨m, hm⟩ := hr
  rcases powerMove_cases hm with ⟨_, _, rfl⟩ | ⟨_, _, rfl⟩ | ⟨a, z, _, hz, rfl⟩
  · exact noQueue_noWork
  · have hstart : x.start.q .io = x.q .io := by simp [World.start, World.setReg, World.setQ]
    rw [hstart]
    exact h.work
  · have hio : (z.q .io).ctl.NoWork := by
      rw [(h.work.move hz).q]
      exact h.work
    cases executed a x with
    | none => exact hio
    | some e =>
      change ((z.create e).q .io).ctl.NoWork
      rw [create_io]
      exact create_noWork hio e

theorem wp_spare (hio : (w.q .io).ctl.NoWork) (nvmeBase : Nat) :
    Wp (Powered mayFail) (Spare w) (nvmeControllerSetup nvmeBase) (fun _ => Spare w) (fun _ _ => False) w := by
  have hkeeps := (mildly_controllerSetup (le_refl 4294967295) nvmeBase).does.keeps (P := Spare w)
    fun _ _ ha h => ⟨ha.disk.trans h.disk, by rw [ha.io]; exact h.work⟩
  exact wp_keeps spare_stable hkeeps ⟨rfl, hio⟩

/-- CORRECT: at no moment of a set-up, however it goes, has anything on the disk changed. -/
theorem setup_spares_disk (hio : (w.q .io).ctl.NoWork) {nvmeBase : Nat} {p : Drv (Option Int)}
    (hrun : Steps (Powered mayFail) w (nvmeControllerSetup nvmeBase) v p) : Spare w v :=
  (wp_spare hio nvmeBase v p hrun).1

theorem setup_spares_disk_sample : Spare diskStart diskBoot.1 :=
  setup_spares_disk noQueue_noWork diskBoot_run

end Nvme
