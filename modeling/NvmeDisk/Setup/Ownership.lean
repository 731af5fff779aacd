import NvmeDisk.Setup.Cleanup
import NvmeDisk.Setup.Guarding
import NvmeDisk.Setup.Uses

/-! When the set-up frees memory that the controller holds. The clean-up of `nvme_controller_enable`
    frees rings without clearing CC.EN: it is safe before CC.EN is set, and never after. -/

namespace Nvme
open Bytes BlockDev Resume Mheap

variable {a : Nat} {lg evs : List Event} {u₀ us : List Used} {w v : World} {H bs : List Nat} {α : Type}
  {Φ : α → World → Prop}

/-! ### A failure after CC.EN was set -/

theorem OnQueue.later {j : QId} {c : Bool} (h : OnQueue j c w v) : Later w v where
  sqe := by
    by_cases hj : j = .admin
    · subst hj
      exact h.sqe
    · rw [h.other .admin fun heq => hj heq.symm]
  log := by
    rcases h.log with hl | ⟨ev, hev, _, hl⟩
    · exact .inl hl
    · refine .inr ⟨ev, hl, ?_⟩
      cases ev <;> first | rfl | cases hev

theorem Later.refl (w : World) : Later w w := ⟨rfl, .inl rfl⟩

theorem later_routine : Routine (· = .io) Later where
  refl := .refl
  poll _ _ := ⟨rfl, .inl rfl⟩
  onQueue := OnQueue.later
  zalloc size _ := by
    refine .act fun w => ?_
    dsimp only
    split <;> exact ⟨rfl, .inl rfl⟩
  warn c := .modify fun _ => ⟨rfl, .inr ⟨_, rfl, rfl⟩⟩
  free a := by
    refine .modify fun w => ?_
    unfold World.free
    split
    · exact .refl _
    · exact ⟨rfl, .inr ⟨_, rfl, rfl⟩⟩
  setQ hj w q := ⟨by rw [World.setQ_q_ne _ _ (by rw [hj]; decide)], .inl rfl⟩

/-- An action that adds at most one event. -/
def More (w v : World) : Prop := v.log = w.log ∨ ∃ ev, v.log = ev :: w.log

theorem more_free (a : Nat) : (free a).Does More := by
  refine .modify fun w => ?_
  unfold World.free
  split
  · exact .inl rfl
  · exact .inr ⟨_, rfl⟩

/-- The admin submission ring is freed while the controller holds it. -/
theorem wp_destroySq (hw : Armed lg w) :
    Wp Hostile (fun _ => True) (nvmeDestroySq .admin) (fun _ => Violated lg) (fun _ _ => False) w := by
  refine wp_get_bind fun v hv => ⟨trivial, ?_⟩
  have hv' := (armed_stable lg).env hw hv
  -- the pointer read is still the one recorded when it is freed
  let P : World → Prop := fun x => Armed lg x ∧ (x.q .admin).sq = (v.q .admin).sq
  have hP : Stable Hostile P := fun x y h hr => ⟨armed_stable lg x y h.1 hr, (hr.sq .admin).trans h.2⟩
  refine wp_modify_bind fun u hu => ⟨trivial, ?_⟩
  obtain ⟨⟨_, evs, hlog, hen, hheld⟩, hsq⟩ := hP.env ⟨hv', rfl⟩ hu
  rw [hsq] at hheld
  have hfreed : Violated lg (u.free (v.q .admin).sq.sqe) := by
    rw [World.free, if_neg hv'.live]
    refine ⟨.freed (v.q .admin).sq.sqe :: evs, by rw [World.note_log, List.cons_append, ← hlog]; rfl,
      enabledIn_cons hen, ?_⟩
    rw [freedSafely, holds, hheld]
    rfl
  refine wp_atom_stable (violated_stable lg) hfreed (fun _ _ => trivial) fun x hx => ?_
  have hx' : Violated lg (x.setSqe .admin 0) := hx.more (.inl rfl)
  exact wp_ret fun y hy => ⟨trivial, (violated_stable lg).env hx' hy⟩

/-- The clean-up frees what the controller holds. -/
theorem wp_destroyAdmin (hw : Armed lg w) :
    Wp Hostile (fun _ => True) destroyAdminQueues (fun rc v => rc = -1 ∧ Violated lg v)
      (fun _ _ => True) w := by
  have hcq : (nvmeDestroyCq .admin).Does More :=
    .bind (.get (fun _ => .inl rfl) _) fun _ => .bind (more_free _) fun _ => .modify fun _ => .inl rfl
  refine wp_seq (wp_destroySq hw) (fun _ _ h => h.elim) fun _ v hv => ?_
  refine wp_seq (wp_mono (wp_keeps (violated_stable lg) (hcq.keeps fun _ _ hr h => h.more hr) hv)
    (fun _ _ => trivial) (fun _ _ _ h => h) fun _ _ _ h => h) (fun _ _ h => h.elim) fun _ u hu => ?_
  exact wp_ret fun x hx => ⟨trivial, rfl, (violated_stable lg).env hu hx⟩

/-! ### The phases of enabling -/

/-- An action that at most prints something or puts something down. -/
structure Slight (w v : World) : Prop where
  q : v.q = w.q
  sys : v.sys = w.sys
  log : v.log = w.log ∨ ∃ c, v.log = .warn c :: w.log

theorem Slight.idler (h : Slight w v) : Idler w v :=
  ⟨by rw [h.sys], fun i => by rw [h.q], fun i => by rw [h.q],
    h.log.imp_right fun ⟨_, hl⟩ => ⟨_, hl, rfl, fun _ => rfl⟩⟩

theorem Slight.early (h : Slight w v) : Early w v :=
  h.log.imp_right fun ⟨_, hl⟩ => ⟨_, hl, rfl, fun _ => rfl⟩

theorem Slight.later (h : Slight w v) : Later w v :=
  ⟨by rw [h.q], h.log.imp_right fun ⟨_, hl⟩ => ⟨_, hl, rfl⟩⟩

theorem slight_waitCstsRdy (rdy : Nat) : (nvmeWaitCstsRdy rdy).Does Slight :=
  does_waitCstsRdy (ρ := Slight) (fun _ => ⟨rfl, rfl, .inl rfl⟩) (fun _ _ => ⟨rfl, rfl, .inl rfl⟩)
    (fun _ => .modify fun _ => ⟨rfl, rfl, .inr ⟨_, rfl⟩⟩) rdy

theorem early_zalloc (site : Site) (size : Nat) : (zallocPageAligned site size).Does Early := by
  refine .act fun w => ?_
  dsimp only
  split <;> exact .inl rfl

theorem early_warn (c : Warn) : (warn c).Does Early := .modify fun _ => .inr ⟨_, rfl, rfl, fun _ => rfl⟩

theorem early_free (a : Nat) : (free a).Does Early := by
  refine .modify fun w => ?_
  unfold World.free
  split
  · exact .inl rfl
  · exact .inr ⟨_, rfl, rfl, fun _ => rfl⟩

theorem early_initRing (r : RingId) (qIdx length : Nat) : (initRing r qIdx length).Does Early :=
  does_initRing (fun _ _ => .inl rfl) (early_zalloc _) early_warn qIdx length

theorem early_destroyCq (i : QId) : (nvmeDestroyCq i).Does Early :=
  .bind (.get (ρ := Early) (fun _ => .inl rfl) _) fun _ => .bind (early_free _) fun _ =>
    .modify fun _ => .inl rfl

/-- What the actions keep, and what they put down, hold besides. -/
theorem wp_besides {P : World → Prop} {ρ : World → World → Prop} {Ψ : α → List Used → Prop}
    {p : Drv α} (hP : Stable Hostile P) (hp : p.Does ρ) (hρ : ∀ w v, ρ w v → P w → P v)
    (hu : Uses u₀ us p Ψ) (h : Wp Hostile (fun _ => True) p Φ (fun _ _ => True) w) (hw : P w)
    (hput : Put u₀ us w) :
    Wp Hostile (fun _ => True) p (fun a v => Φ a v ∧ P v ∧ ∃ us', Ψ a us' ∧ Put u₀ us' v)
      (fun _ _ => True) w := by
  have hused := wp_narrow (hu w hput) fun _ _ _ => hostile_untrusted
  exact wp_mono (wp_and h (wp_and (wp_keeps hP (hp.keeps hρ) hw) hused)) (fun _ _ => trivial)
    (fun _ _ _ h => ⟨h.1, h.2.1, h.2.2⟩) fun _ _ _ _ => trivial

/-- How enabling ends: with nothing handed over, up, or, once CC.EN was set, with rings freed that the
    controller holds. -/
def EnableEnds (lg : List Event) (u₀ : List Used) (rc : Int) (w : World) : Prop :=
  ∃ us, Put u₀ us w ∧ ((rc = -1 ∧ Unheld lg w ∧ NoSq .admin us) ∨ (rc = 0 ∧ Safe lg w ∧ CameUp us) ∨
    (rc = -1 ∧ Violated lg w ∧ ¬ NoSq .admin us ∧ ¬ CameUp us))

theorem put_hostile (u₀ us : List Used) : Stable Hostile (Put u₀ us) := fun _ _ h hr => hr.used.trans h

theorem wp_failed (hw : Armed lg w) (hput : Put u₀ us w) (hadmin : ¬ NoSq .admin us) (hdown : ¬ CameUp us) :
    Wp Hostile (fun _ => True) destroyAdminQueues (EnableEnds lg u₀) (fun _ _ => True) w := by
  have hkeeps := wp_keeps (put_hostile u₀ us)
    (unused_destroyAdminQueues.keeps fun _ _ hu h => hu.trans h) hput
  exact wp_mono (wp_and (wp_destroyAdmin hw) hkeeps) (fun _ _ => trivial)
    (fun _ _ _ h => ⟨us, h.2, .inr (.inr ⟨h.1.1, h.1.2, hadmin, hdown⟩)⟩) fun _ _ _ _ => trivial

/-- From CSTS.RDY on. -/
theorem ends_enableIdentified {a : Nat} {earlier : List Used} (h0 : a ≠ 0)
    (hready : Turned 1 (.alloc (.sqRing .admin) a :: earlier) us) (hno : NoSq .io us) (hs : Safe lg w)
    (ha : Armed lg w) (hput : Put u₀ us w) :
    Wp Hostile (fun _ => True) enableIdentified (EnableEnds lg u₀) (fun _ _ => True) w := by
  obtain ⟨H, hs⟩ := hs
  have hadmin : ¬ NoSq .admin us := fun h =>
    h0 (hready.polled.extends.noSq h a (List.mem_cons_self ..))
  refine wp_seq (wp_besides (armed_stable lg) (later_routine.identify _ _) (fun _ _ hr h => h.later hr)
    (uses_identify _ _) (guards_identify _ _ w hs) ha hput) (fun _ _ _ => trivial) ?_
  rintro id v ⟨hgot, ha, identified, ⟨rfl, hd⟩ | ⟨hid, hg⟩, hput⟩
  · rw [if_pos rfl]
    exact wp_failed ha hput (fun h => hadmin (hd.extends.noSq h)) (hno.other hd (by decide)).uncreated.not_up
  rw [if_neg hid]
  have hv : Kept lg H [id] v := (hgot.resolve_left fun h => hid h.1).2
  have hno := hno.granted hg (by decide)
  have hadmin : ¬ NoSq .admin identified := fun h => hadmin (hg.extends.noSq h)
  -- the Identify buffer is read and freed
  let P : List Used → World → Prop := fun us x => Kept lg H [id] x ∧ Armed lg x ∧ Put u₀ us x
  have hP : ∀ us, Stable Hostile (P us) := fun us x y h hr =>
    ⟨kept_stable lg H [id] x y h.1 hr, armed_stable lg x y h.2.1 hr, put_hostile u₀ us x y h.2.2 hr⟩
  refine wp_getUsed_bind fun x hx => ⟨trivial, ?_⟩
  obtain ⟨hkept, harmed, hput⟩ := (hP _).env ⟨hv, ha, hput⟩ hx
  generalize (identifyCtrlAt x.store.mem id).nn = n
  have hread : P (.nn n :: identified) (x.use (.nn n)) :=
    ⟨hkept.idler (idler_use x _), harmed.later ⟨rfl, .inl rfl⟩,
      hput.use _⟩
  refine wp_modify_bind fun y hy => ⟨trivial, ?_⟩
  obtain ⟨hkept, harmed, hput⟩ := (hP _).env hread hy
  have hset : P (.nn n :: identified) (y.setSys { y.sys with nsCount := n }) :=
    ⟨hkept.idler ⟨rfl, fun _ => rfl, fun _ => rfl, .inl rfl⟩, harmed.later ⟨rfl, .inl rfl⟩, hput⟩
  refine wp_get_bind fun z hz => ⟨trivial, ?_⟩
  obtain ⟨hkept, harmed, hput⟩ := (hP _).env hset hz
  generalize (identifyCtrlAt z.store.mem id).mdts = mdts
  have hno : NoSq .io (.nn n :: identified) := hno.cons (by simp)
  have hadmin : ¬ NoSq .admin (.nn n :: identified) := fun h => hadmin (Extends.noSq ⟨[_], rfl⟩ h)
  refine wp_seq (wp_besides (armed_stable lg) (later_routine.free id) (fun _ _ hr h => h.later hr)
    (uses_keeps (unused_free id)) (guards_free z hkept) harmed hput) (fun _ _ _ => trivial) ?_
  rintro _ u ⟨hu, ha, _, rfl, hput⟩
  split
  · exact wp_failed ha hput hadmin hno.uncreated.not_up
  rename_i hn
  refine wp_seq (wp_besides (armed_stable lg) (later_routine.createIoQueues rfl) (fun _ _ hr h => h.later hr)
    uses_createIoQueues (guards_createIoQueues ⟨H, hu⟩) ha hput) (fun _ _ _ => trivial) ?_
  rintro rc u' ⟨hrc, ha, us', ⟨rfl, created, hcq, hsq⟩ | ⟨rfl, hd⟩, hput⟩
  · rw [if_neg (by decide)]
    obtain ⟨H', hu'⟩ := hrc rfl
    have hprobe := wp_narrow (uses_probeLoop mdts n 0 u' hput) fun _ _ _ => hostile_untrusted
    refine wp_seq (wp_mono (wp_and (guards_probeLoop mdts n 0 u' hu') hprobe) (fun _ _ => trivial)
      (fun _ _ _ h => h) fun _ _ _ _ => trivial) (fun _ _ h => h) ?_
    rintro _ t ⟨ht, _, ⟨later, rfl⟩, hput⟩
    have hup : CameUp (later ++ us') := .up later h0 hready hg hn hcq hsq
    exact wp_ret fun t' he => ⟨trivial, _, (put_hostile u₀ _).env hput he,
      .inr (.inl ⟨rfl, ⟨H', (kept_stable lg H' []).env ht he⟩, hup⟩)⟩
  · rw [if_pos (by decide)]
    exact wp_failed ha hput (fun h => hadmin (hd.extends.noSq h)) (hno.ioDenied hd).not_up

/-- The addresses of the admin rings are written, and CC.EN is set. -/
theorem wp_switchOn {k : Unit → Drv α} (hs : Safe lg w) (hlive : (w.q .admin).sq.sqe ≠ 0)
    (hput : Put u₀ us w)
    (hk : ∀ v, Safe lg v → Armed lg v → Put u₀ us v →
      Wp Hostile (fun _ => True) (k ()) Φ (fun _ _ => True) v) :
    Wp Hostile (fun _ => True) (do
      Prog.modify fun w => w.setReg { w.reg with
        aqa := (w.q .admin).cq.common.mask <<< 16 ||| (w.q .admin).sq.common.mask }
      Prog.modify fun w =>
        (w.setReg { w.reg with asq := (w.q .admin).sq.sqe }).note (.writeAsq (w.q .admin).sq.sqe)
      Prog.modify fun w =>
        (w.setReg { w.reg with acq := (w.q .admin).cq.cqe }).note (.writeAcq (w.q .admin).cq.cqe)
      Prog.modify (·.writeCc (nvmeCcEn ||| nvmeCqeSizeLog <<< 20 ||| nvmeSqeSizeLog <<< 16))
      k ()) Φ (fun _ _ => True) w := by
  obtain ⟨H, hs⟩ := hs
  let P : World → Prop := fun x => (Kept lg H [] x ∧ (x.q .admin).sq.sqe ≠ 0) ∧ Put u₀ us x
  have hP : Stable Hostile P := fun x y h hr =>
    ⟨⟨kept_stable lg H [] x y h.1.1 hr, by rw [hr.sq]; exact h.1.2⟩, put_hostile u₀ us x y h.2 hr⟩
  let N : World → Prop := fun x => P x ∧
    ∃ evs, x.log = evs ++ lg ∧ holdsAdmin (x.q .admin).sq.sqe evs = true
  have hN : Stable Hostile N := fun x y h hr =>
    ⟨hP x y h.1 hr, by rw [hr.log, hr.sq]; exact h.2⟩
  refine wp_modify_bind fun x hx => ⟨trivial, ?_⟩
  obtain ⟨hx, hput⟩ := hP.env ⟨⟨hs, hlive⟩, hput⟩ hx
  have haqa : P (x.setReg { x.reg with
      aqa := (x.q .admin).cq.common.mask <<< 16 ||| (x.q .admin).sq.common.mask }) :=
    ⟨⟨hx.1.idler ⟨rfl, fun _ => rfl, fun _ => rfl, .inl rfl⟩, hx.2⟩, hput⟩
  refine wp_modify_bind fun y hy => ⟨trivial, ?_⟩
  obtain ⟨hy, hput⟩ := hP.env haqa hy
  have hasq : N ((y.setReg { y.reg with asq := (y.q .admin).sq.sqe }).note
      (.writeAsq (y.q .admin).sq.sqe)) := by
    refine ⟨⟨⟨hy.1.event rfl (fun _ => rfl) (fun _ => rfl) rfl rfl fun a ha hh => ?_, hy.2⟩, hput⟩, ?_⟩
    · rw [← (beq_iff_eq.mp hh : (y.q .admin).sq.sqe = a)] at ha ⊢
      exact hy.1.sqe .admin ha
    · obtain ⟨evs, hevs, _⟩ := hy.1.log
      exact ⟨_ :: evs, congrArg _ hevs, by simp [holdsAdmin]; exact .inl rfl⟩
  refine wp_modify_bind fun z hz => ⟨trivial, ?_⟩
  obtain ⟨⟨hz, hput⟩, hasq⟩ := hN.env hasq hz
  have hacq : N ((z.setReg { z.reg with acq := (z.q .admin).cq.cqe }).note
      (.writeAcq (z.q .admin).cq.cqe)) := by
    refine ⟨⟨⟨hz.1.event rfl (fun _ => rfl) (fun _ => rfl) rfl rfl fun a ha hh => ?_, hz.2⟩, hput⟩, ?_⟩
    · rw [← (beq_iff_eq.mp hh : (z.q .admin).cq.cqe = a)] at ha ⊢
      exact hz.1.cqe .admin ha
    · obtain ⟨evs, hevs, hheld⟩ := hasq
      exact ⟨_ :: evs, congrArg _ hevs, holdsAdmin_cons rfl hheld⟩
  refine wp_modify_bind fun u hu => ⟨trivial, ?_⟩
  obtain ⟨⟨⟨hu, hlive⟩, hput⟩, evs, hevs, hheld⟩ := hN.env hacq hu
  refine hk _ ⟨H, hu.event rfl (fun _ => rfl) (fun _ => rfl) rfl rfl fun a _ hh => by cases hh⟩
    ⟨hlive, _ :: evs, congrArg _ hevs, rfl, ?_⟩ hput
  exact Bool.and_eq_true_iff.mpr ⟨rfl, hheld⟩

/-! ### The whole setup -/

/-- Pointers have 32 bits, and nothing was handed over since `lg`. -/
structure Fresh (lg : List Event) (w : World) : Prop where
  space : ∀ n a, w.sys.heap.oracle n = some a → a < 4294967296
  unheld : Unheld lg w

theorem fresh_stable (lg : List Event) : Stable Hostile (Fresh lg) := fun _ _ h hr =>
  ⟨by rw [hr.sys]; exact h.space, unheld_stable lg _ _ h.unheld hr⟩

theorem Fresh.zalloc (h : Fresh lg w) (site : Site) (size : Nat) :
    Wp Hostile (Fresh lg) (zallocPageAligned site size) (fun _ => Fresh lg) (fun _ _ => False) w := by
  refine wp_keeps (fresh_stable lg) (.act fun u hu => ?_) h
  dsimp only
  split <;> exact ⟨fun n a ha => hu.space n a (by rwa [← Heap.alloc_oracle]), hu.unheld.early (.inl rfl)⟩

/-- With no ring recorded there is nothing to account for. -/
theorem Fresh.kept (h : Fresh lg w) (hs : ∀ i, (w.q i).sq.sqe = 0) (hc : ∀ i, (w.q i).cq.cqe = 0) :
    Kept lg [] [] w where
  rings _ ha := absurd ha List.not_mem_nil
  others _ ha := absurd ha List.not_mem_nil
  nodup := List.nodup_nil
  space := h.space
  small _ ha := absurd ha List.not_mem_nil
  sqe i hi := absurd (hs i) hi
  cqe i hi := absurd (hc i) hi
  log := by
    obtain ⟨evs, hevs, hfreed, _, hheld⟩ := h.unheld.log
    exact ⟨evs, hevs, hfreed, fun a _ hh => by rw [hheld] at hh; cases hh⟩

/-- Without the admin submission ring enabling ends before CC.EN is set. -/
theorem wp_early (hu : Unheld lg w) (hput : Put u₀ us w) (hadmin : NoSq .admin us) :
    Wp Hostile (fun _ => True) (.ret (-1) : Drv Int) (EnableEnds lg u₀) (fun _ _ => True) w :=
  wp_ret fun _ he => ⟨trivial, us, (put_hostile u₀ us).env hput he,
    .inl ⟨rfl, (unheld_stable lg).env hu he, hadmin⟩⟩

/-- ENABLE RULE: what is freed before CC.EN is set is not held; from then on what is freed is held, and
    nothing is freed if the controller comes up. -/
theorem wp_enable (hno : NoSq .io us) (hadmin : NoSq .admin us) (hk : Kept lg [] [] w) (hu : Unheld lg w)
    (hput : Put u₀ us w) :
    Wp Hostile (fun _ => True) nvmeControllerEnable (EnableEnds lg u₀) (fun _ _ => True) w := by
  have hearly : ∀ v u, Early v u → Unheld lg v → Unheld lg u := fun _ _ hr h => h.early hr
  let P : List Used → World → Prop := fun us x => Kept lg [] [] x ∧ Unheld lg x ∧ Put u₀ us x
  have hP : ∀ us, Stable Hostile (P us) := fun us x y h hr =>
    ⟨kept_stable lg [] [] x y h.1 hr, unheld_stable lg x y h.2.1 hr, put_hostile u₀ us x y h.2.2 hr⟩
  refine wp_modify_bind fun v hv => ⟨trivial, ?_⟩
  obtain ⟨hv, hvu, hput⟩ := (hP us).env ⟨hk, hu, hput⟩ hv
  have hoff : P us (v.writeCc 0) :=
    ⟨hv.event rfl (fun _ => rfl) (fun _ => rfl) rfl rfl (fun a _ hh => by cases hh),
      hvu.early (.inr ⟨_, rfl, rfl, fun _ => rfl⟩), hput⟩
  refine wp_seq (wp_besides (unheld_stable lg) (slight_waitCstsRdy 0)
    (fun _ _ hr h => h.early hr.early) (uses_waitCstsRdy 0)
    (guards_idle ((slight_waitCstsRdy 0).mono fun _ _ => Slight.idler) _ hoff.1) hoff.2.1 hoff.2.2)
    (fun _ _ h => h) ?_
  rintro rc x ⟨hx, hxu, polled, hrc, hput⟩
  have hpolled : Polled us polled := by
    rcases hrc with ⟨_, hturned⟩ | ⟨_, hp⟩
    · exact hturned.polled
    · exact hp
  have hno := hno.polled hpolled
  have hadmin := hadmin.polled hpolled
  split
  · rename_i hfail
    obtain rfl : rc = -1 := by
      rcases hrc with ⟨rfl, _⟩ | ⟨rfl, _⟩
      · exact absurd rfl hfail
      · rfl
    exact wp_early hxu hput hadmin
  refine wp_get_bind fun y hy => ⟨trivial, ?_⟩
  refine wp_modify_bind fun z hz => ⟨trivial, ?_⟩
  obtain ⟨hzk, hzu, hput⟩ := (hP _).env ((hP _).env ⟨hx, hxu, hput⟩ hy) hz
  have hstride : P polled (z.setSys { z.sys with
      doorbellStride := u32 (4 <<< ((y.reg.cap >>> 32) &&& 0xF)) }) :=
    ⟨hzk.idler ⟨rfl, fun _ => rfl, fun _ => rfl, .inl rfl⟩, hzu.early (.inl rfl), hput⟩
  refine wp_seq (wp_besides (unheld_stable lg) (early_initRing (.cq .admin) ..) hearly
    (uses_initRing (.cq .admin) _ _) (guards_initCq .admin _ _ ⟨[], hstride.1⟩) hstride.2.1 hstride.2.2)
    (fun _ _ h => h) ?_
  rintro rc u ⟨hsafe, hu, _, ⟨c, rfl, ⟨rfl, hc⟩ | ⟨rfl, rfl⟩⟩, hput⟩
  · rw [if_neg (by decide)]
    have hno : NoSq .io (.alloc (.cqRing .admin) c :: polled) := hno.alloc (by decide) c
    have hadmin : NoSq .admin (.alloc (.cqRing .admin) c :: polled) := hadmin.alloc (by decide) c
    refine wp_seq (wp_besides (unheld_stable lg) (early_initRing (.sq .admin) ..) hearly
      (uses_initRing (.sq .admin) _ _) (guards_initSq .admin _ _ (hsafe rfl)) hu hput) (fun _ _ h => h) ?_
    rintro rc t ⟨hsafe, ht, _, ⟨a, rfl, ⟨rfl, h0⟩ | ⟨rfl, rfl⟩⟩, hput⟩
    · rw [if_neg (by decide)]
      obtain ⟨hsafe, hlive⟩ := hsafe rfl
      have hno : NoSq .io (.alloc (.sqRing .admin) a :: .alloc (.cqRing .admin) c :: polled) :=
        hno.alloc (by decide) a
      have hadmin : ¬ NoSq .admin (.alloc (.sqRing .admin) a :: .alloc (.cqRing .admin) c :: polled) :=
        fun h => h0 (h a (List.mem_cons_self ..))
      refine wp_switchOn (k := fun _ => _) hsafe hlive hput fun s ⟨H, hs⟩ ha hput => ?_
      refine wp_seq (wp_besides (armed_stable lg) (slight_waitCstsRdy 1)
        (fun _ _ hr h => h.later hr.later) (uses_waitCstsRdy 1)
        (guards_idle ((slight_waitCstsRdy 1).mono fun _ _ => Slight.idler) _ hs) ha hput)
        (fun _ _ h => h) ?_
      rintro rc s' ⟨hs', ha, us', ⟨rfl, hready⟩ | ⟨rfl, hp⟩, hput⟩
      · rw [if_neg (by decide)]
        exact ends_enableIdentified h0 hready (hno.polled hready.polled) ⟨H, hs'⟩ ha hput
      · rw [if_pos (by decide)]
        exact wp_failed ha hput (fun h => hadmin (hp.extends.noSq h)) (hno.polled hp).uncreated.not_up
    · rw [if_pos (by decide)]
      have hadmin := hadmin.cons (x := .alloc (.sqRing .admin) 0) (by simp)
      have hany : Wp Hostile (fun _ => True) (nvmeDestroyCq .admin) (fun _ _ => True)
          (fun _ _ => True) t := fun v q _ => ⟨trivial, by cases q <;> trivial⟩
      refine wp_seq (wp_besides (unheld_stable lg) (early_destroyCq .admin) hearly
        (uses_keeps (unused_destroyCq .admin)) hany ht hput) (fun _ _ h => h) ?_
      rintro _ s ⟨_, hs, _, rfl, hput⟩
      exact wp_early hs hput hadmin
  · rw [if_pos (by decide)]
    exact wp_early hu hput (hadmin.alloc (by decide) 0)

/-- How a setup ends. -/
def Finishes (lg : List Event) (u₀ : List Used) (r : Option Int) (w : World) : Prop :=
  ∃ us, Put u₀ us w ∧ ((Unheld lg w ∧ NoSq .admin us) ∨ (r = some 0 ∧ Safe lg w ∧ CameUp us) ∨
    (Violated lg w ∧ ¬ NoSq .admin us ∧ ¬ CameUp us))

theorem wp_setup (nvmeBase : Nat) (hw : Fresh w.log w) :
    Wp Hostile (fun _ => True) (nvmeControllerSetup nvmeBase) (Finishes w.log w.used)
      (fun _ _ => True) w := by
  let P : List Used → World → Prop := fun us x => Fresh w.log x ∧ Put w.used us x
  have hP : ∀ us, Stable Hostile (P us) := fun us x y h hr =>
    ⟨fresh_stable w.log x y h.1 hr, put_hostile _ us x y h.2 hr⟩
  have hret : ∀ {r : Option Int} us v, P us v → NoSq .admin us →
      Wp Hostile (fun _ => True) (.ret r : Drv (Option Int)) (Finishes w.log w.used) (fun _ _ => True) v :=
    fun _ _ hv hno => wp_ret fun u hu =>
      ⟨trivial, _, ((hP _).env hv hu).2, .inl ⟨((hP _).env hv hu).1.unheld, hno⟩⟩
  have hnone : NoSq .admin [] := fun _ hm => by cases hm
  have hw : P [] w := ⟨hw, rfl⟩
  unfold nvmeControllerSetup
  split
  · exact hret _ _ hw hnone
  refine wp_get_bind fun v hv => ⟨trivial, ?_⟩
  have hv := (hP _).env hw hv
  split
  · exact hret _ _ hv hnone
  have hctrl := wp_narrow (uses_zalloc .ctrl sizeofCtrl v hv.2) fun _ _ _ => hostile_untrusted
  refine wp_seq (wp_mono (wp_and (hv.1.zalloc _ _) hctrl) (fun _ _ => trivial) (fun _ _ _ h => h)
    fun _ _ _ _ => trivial) (fun _ _ h => h) ?_
  rintro ctrl u ⟨hu, _, rfl, hput⟩
  have hadmin : NoSq .admin [.alloc .ctrl ctrl] := hnone.alloc (by decide) ctrl
  have hu : P [.alloc .ctrl ctrl] u := ⟨hu, hput⟩
  split
  · refine wp_modify_bind fun x hx => ⟨trivial, hret [.alloc .ctrl ctrl] _ ?_ hadmin⟩
    obtain ⟨hx, hput⟩ := (hP _).env hu hx
    exact ⟨⟨hx.space, hx.unheld.early (.inr ⟨_, rfl, rfl, fun _ => rfl⟩)⟩, hput⟩
  refine wp_modify_bind fun x hx => ⟨trivial, ?_⟩
  obtain ⟨hx, hput⟩ := (hP _).env hu hx
  have hclear : Fresh w.log x.clearCtrl := ⟨hx.space, hx.unheld.early (.inl rfl)⟩
  have hno : NoSq .io [.alloc .ctrl ctrl] := NoSq.alloc (fun _ hm => by cases hm) (by decide) ctrl
  refine wp_seq (wp_enable hno hadmin (hclear.kept (fun _ => rfl) fun _ => rfl) hclear.unheld hput)
    (fun _ _ h => h) ?_
  have hfree : ∀ z : World, Early z (z.free ctrl) ∧ More z (z.free ctrl) ∧ (z.free ctrl).used = z.used := by
    intro z
    unfold World.free
    split
    · exact ⟨.inl rfl, .inl rfl, rfl⟩
    · exact ⟨.inr ⟨_, rfl, rfl, fun _ => rfl⟩, .inr ⟨_, rfl⟩, rfl⟩
  rintro rc y ⟨us, hput, ⟨rfl, hy, hno⟩ | ⟨rfl, hy, hup⟩ | ⟨rfl, hy, hadmin, hdown⟩⟩
  · refine wp_modify_bind fun z hz => ⟨trivial, wp_ret fun t ht => ⟨trivial, us, ?_, .inl ⟨?_, hno⟩⟩⟩
    · exact (put_hostile _ us).env ((hfree z).2.2.trans ((put_hostile _ us).env hput hz)) ht
    · exact (unheld_stable _).env (((unheld_stable _).env hy hz).early (hfree z).1) ht
  · exact wp_ret fun t ht => ⟨trivial, us, (put_hostile _ us).env hput ht,
      .inr (.inl ⟨rfl, (safe_stable _).env hy ht, hup⟩)⟩
  · refine wp_modify_bind fun z hz => ⟨trivial, wp_ret fun t ht => ⟨trivial, us, ?_,
      .inr (.inr ⟨?_, hadmin, hdown⟩)⟩⟩
    · exact (put_hostile _ us).env ((hfree z).2.2.trans ((put_hostile _ us).env hput hz)) ht
    · exact (violated_stable _).env (((violated_stable _).env hy hz).more (hfree z).2.1) ht

/-- CORRECT: whatever the device does and whichever allocations fail, no memory is freed that the
    controller holds if and only if the admin submission ring got no memory, so that CC.EN was not set,
    or everything that brings a controller up went well. -/
theorem rings_free_iff (nvmeBase : Nat)
    (hspace : ∀ n a, w.sys.heap.oracle n = some a → a < 4294967296) {r : Option Int}
    (hrun : Steps Hostile w (nvmeControllerSetup nvmeBase) v (.ret r)) {evs : List Event}
    (hevs : v.log = evs ++ w.log) {us : List Used} (hus : v.used = us ++ w.used) :
    freedSafely evs = true ↔ NoSq .admin us ∨ CameUp us := by
  have hfresh : Fresh w.log w := ⟨hspace, ⟨[], rfl, rfl, rfl, fun _ => rfl⟩⟩
  obtain ⟨us', hput, hend⟩ := (wp_setup nvmeBase hfresh v _ hrun).2
  obtain rfl : us' = us := List.append_cancel_right (hput.symm.trans hus)
  have hsame : ∀ {es}, v.log = es ++ w.log → es = evs :=
    fun hes => List.append_cancel_right (hes.symm.trans hevs)
  rcases hend with ⟨⟨es, hes, hfreed, _⟩, hno⟩ | ⟨_, ⟨H, hk⟩, hup⟩ | ⟨⟨es, hes, _, hfreed⟩, hno, hdown⟩
  · rw [← hsame hes]
    exact iff_of_true hfreed (.inl hno)
  · obtain ⟨es, hes, hfreed, _⟩ := hk.log
    rw [← hsame hes]
    exact iff_of_true hfreed (.inr hup)
  · rw [← hsame hes, hfreed]
    exact iff_of_false (by decide) fun h => h.elim hno hdown

/-! ### A controller that does not come up -/

/-- Room for 16 allocations. -/
def smallStart : World :=
  bareWorld (nvmeCapCssNvme + 0x1000000 + 255) fun n => if n < 16 then some (sampleBlock n) else none

/-- The controller reports a fatal error once CC.EN is set. -/
def fatalSetup : World × Drv (Option Int) :=
  follow deviceAct (driverActs 20 ++ [some (.csts 2)] ++ driverActs 10) smallStart
    (nvmeControllerSetup 1)

/-- Both admin rings are freed although the controller still has their addresses. -/
theorem fatal_frees_held :
    Steps Hostile smallStart (nvmeControllerSetup 1) fatalSetup.1 (.ret (some (-1))) ∧
      freedSafely fatalSetup.1.log = false ∧
      fatalSetup.1.log.take 3 = [.freed 0x10000, .freed 0x20000, .freed 0x30000] ∧
      holdsAdmin 0x30000 (fatalSetup.1.log.drop 3) = true ∧
      holdsAdmin 0x20000 (fatalSetup.1.log.drop 3) = true := by
  have hret : fatalSetup.2.value? = some (some (-1)) := by decide +kernel
  exact ⟨follow_ret hret fun _ _ => deviceAct_hostile, by decide +kernel, by decide +kernel,
    by decide +kernel, by decide +kernel⟩

theorem smallStart_space (n a : Nat) (h : smallStart.sys.heap.oracle n = some a) : a < 4294967296 := by
  change (if n < 16 then some (sampleBlock n) else none) = some a at h
  split at h
  · cases h
    rw [sampleBlock]
    omega
  · cases h

/-- The controller comes up. -/
def readySetup : World × Drv (Option Int) :=
  follow deviceAct setupScript smallStart (nvmeControllerSetup 1)

theorem rings_free_iff_sample : (∀ n a, smallStart.sys.heap.oracle n = some a → a < 4294967296) ∧
    freedSafely readySetup.1.log = true ∧ CameUp readySetup.1.used := by
  have hret : readySetup.2.value? = some (some 0) := by decide +kernel
  have hsafe : freedSafely readySetup.1.log = true := by decide +kernel
  refine ⟨smallStart_space, hsafe, ((rings_free_iff 1 smallStart_space
    (follow_ret hret fun _ _ => deviceAct_hostile) (List.append_nil _).symm
    (List.append_nil _).symm).mp hsafe).resolve_left fun hno => ?_⟩
  have hring : .alloc (.sqRing .admin) 0x30000 ∈ readySetup.1.used := by decide +kernel
  exact absurd (hno _ hring) (by decide)

end Nvme
