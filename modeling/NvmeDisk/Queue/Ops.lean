import NvmeDisk.Model.Driver

/-! What the queue operations of the driver may touch: one queue pair, and the log with an event about
    that pair. Whatever does not speak of the pair or of such events is kept by all of them. -/

namespace Nvme
open Resume

/-- The queue a driver event is about. -/
def Event.queue? : Event → Option QId
  | .commit i _ _ _ => some i
  | .consumed i _ _ => some i
  | .copied i _ => some i
  | .timeout i => some i
  | _ => none

@[simp] def Event.isCommit : Event → Bool
  | .commit _ _ _ _ => true
  | _ => false

/-- One action of a queue operation on pair `j`; `commits` says whether it may be a commit. -/
structure OnQueue (j : QId) (commits : Bool) (w v : World) : Prop where
  other : ∀ i, i ≠ j → v.q i = w.q i
  cqe : (v.q j).cq.cqe = (w.q j).cq.cqe
  sqe : (v.q j).sq.sqe = (w.q j).sq.sqe
  store : v.store = w.store
  sys : v.sys = w.sys
  reg : v.reg = w.reg
  dev : v.dev = w.dev
  log : v.log = w.log ∨
    ∃ ev, ev.queue? = some j ∧ (ev.isCommit = true → commits = true) ∧ v.log = ev :: w.log
  used : v.used = w.used ∨ ∃ c, v.used = .cqe j c :: w.used

variable {w v : World} {j : QId} {commits : Bool}

theorem OnQueue.refl (j : QId) (commits : Bool) (w : World) : OnQueue j commits w w :=
  ⟨fun _ _ => rfl, rfl, rfl, rfl, rfl, rfl, rfl, .inl rfl, .inl rfl⟩

theorem OnQueue.setQ (w : World) {q : QPair} (hc : q.cq.cqe = (w.q j).cq.cqe)
    (hs : q.sq.sqe = (w.q j).sq.sqe) : OnQueue j commits w (w.setQ j q) where
  other _ h := World.setQ_q_ne _ _ h
  cqe := by rw [World.setQ_q_same, hc]
  sqe := by rw [World.setQ_q_same, hs]
  store := rfl
  sys := rfl
  reg := rfl
  dev := rfl
  log := .inl rfl
  used := .inl rfl

/-- The event an action logs comes last. -/
theorem OnQueue.note (h : OnQueue j commits w v) (hlog : v.log = w.log) {ev : Event}
    (hev : ev.queue? = some j) (hc : ev.isCommit = true → commits = true) :
    OnQueue j commits w (v.note ev) :=
  { h with log := .inr ⟨ev, hev, hc, by rw [World.note_log, hlog]⟩ }

theorem does_getNextSqe (j : QId) (opc metadata data data2 : Nat) :
    (getNextSqe j opc metadata data data2).Does (OnQueue j false) := by
  refine .act fun w => .setQ w ?_ ?_ <;>
  · simp only [nvmeGetNextSqe]
    split <;> rfl

theorem does_fillIn (j : QId) (slot nsid dword10 dword11 dword12 : Nat) :
    (fillIn j (some slot) nsid dword10 dword11 dword12).Does (OnQueue j false) :=
  .modify fun w => .setQ w rfl rfl

theorem does_commitSqe (j : QId) : (commitSqe j).Does (OnQueue j true) :=
  .modify fun w => (OnQueue.setQ w (q := nvmeCommitSqe (w.q j)) rfl rfl).note rfl rfl fun _ => rfl

theorem does_consume (j : QId) : (nvmeConsumeCqe j).Does (OnQueue j false) := by
  refine Prog.Does.bind (.act fun w => ?_) fun slot => ?_
  · split
    · exact (OnQueue.setQ w (q := nvmeAdvanceCq (w.q j)) rfl rfl).note rfl rfl (by simp)
    · exact .refl ..
  · cases slot with
    | none => exact .ret
    | some s =>
      refine .act fun w => ?_
      have hnote : OnQueue j false w (w.note (.copied j ((w.q j).cqes s))) :=
        (OnQueue.refl ..).note rfl rfl (by simp)
      exact { hnote with used := .inr ⟨_, rfl⟩ }

theorem does_wait (j : QId) : (nvmeWait j).Does (OnQueue j false) := by
  have hloop : ∀ k, (nvmeWaitLoop j k).Does (OnQueue j false) := by
    intro k
    induction k with
    | zero => exact .bind (.modify fun w => (OnQueue.refl j _ w).note rfl rfl (by simp)) fun _ => .ret
    | succ k ih =>
      refine .bind (.get (OnQueue.refl j _) _) fun b => ?_
      cases b with
      | false => exact ih
      | true => exact does_consume j
  exact hloop 500

/-! ### Submitting -/

/-- A submission entry with every field filled in. -/
def cmdSqe (tail opc metadata data data2 nsid dword10 dword11 dword12 : Nat) : NvmeSqe :=
  { freshSqe tail opc metadata data data2 with
    nsid := nsid
    dword10 := dword10
    dword11 := dword11
    dword12 := dword12 }

/-- SUBMIT RULE: where the device leaves the tail and the entries of the queue alone, a command is
    committed as it was filled in. `P` is an assertion that the device and writes to entries keep. -/
theorem wp_submit {R : World → World → Prop} {I P : World → Prop} {α : Type}
    {opc metadata data data2 nsid dword10 dword11 dword12 : Nat} {f : Option Nat → Drv α} {k : Drv α}
    {Q : α → World → Prop} {X : Halt → World → Prop}
    (hR : ∀ w v, R w v → (v.q j).sq = (w.q j).sq ∧ (v.q j).sqes = (w.q j).sqes)
    (hP : Stable R P) (hI : ∀ w, P w → I w)
    (hset : ∀ w sqes, P w → P (w.setQ j { w.q j with sqes := sqes }))
    (hf : ∀ slot, f (some slot) = do
      fillIn j (some slot) nsid dword10 dword11 dword12
      commitSqe j
      k)
    (hnone : ∀ w, P w → Wp R I (f none) Q X w)
    (hcommit : ∀ w, P w → (∃ tail, (w.q j).sqes (w.q j).sq.tail =
        cmdSqe tail opc metadata data data2 nsid dword10 dword11 dword12) →
      Wp R I k Q X (w.commitSqe j)) (hw : P w) :
    Wp R I (getNextSqe j opc metadata data data2 >>= f) Q X w := by
  have hsame : ∀ q : QPair, Stable R fun u : World => (u.q j).sq = q.sq ∧ (u.q j).sqes = q.sqes :=
    fun q u x h hr => ⟨(hR u x hr).1.trans h.1, (hR u x hr).2.trans h.2⟩
  refine wp_atom_stable hP hw hI fun v hv => ?_
  by_cases hfull : ((v.q j).sq.head + 1) &&& (v.q j).sq.common.mask = (v.q j).sq.tail
  · simp only [nvmeGetNextSqe, if_pos hfull]
    exact hnone _ (hset v _ hv)
  simp only [nvmeGetNextSqe, if_neg hfull]
  change Wp R I (f (some (v.q j).sq.tail)) Q X _
  rw [hf]
  -- the entry stays as filled in
  refine wp_modify_bind fun u hu => ?_
  obtain ⟨hsq, hsqes⟩ := (hsame (World.q _ j)).env ⟨rfl, rfl⟩ hu
  have hu' := hP.env (hset v _ hv) hu
  rw [World.setQ_q_same] at hsq hsqes
  refine ⟨hI u hu', wp_modify_bind fun x hx => ?_⟩
  obtain ⟨hsq', hsqes'⟩ := (hsame (World.q _ j)).env ⟨rfl, rfl⟩ hx
  have hx' := hP.env (hset u _ hu') hx
  rw [World.setQ_q_same] at hsq' hsqes'
  refine ⟨hI x hx', hcommit x hx' ⟨(v.q j).sq.tail, ?_⟩⟩
  rw [hsqes', hsq']
  simp [fillSqe, cmdSqe, hsqes, hsq]

end Nvme
