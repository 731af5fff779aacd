import NvmeDisk.Setup.Inventory

/-! What the functions of the set-up have in common, for a relation between the worlds before and after
    an action: if it allows the queue operations, allocation, freeing, a warning and the bookkeeping of
    the rings, then it allows every command and every creation of a queue. -/

namespace Nvme
open Bytes BlockDev Resume

/-- The submission or the completion ring of a pair. -/
inductive RingId where | sq (i : QId) | cq (i : QId)
  deriving DecidableEq

def RingId.queue : RingId → QId
  | .sq i => i
  | .cq i => i

def RingId.site : RingId → Site
  | .sq i => .sqRing i
  | .cq i => .cqRing i

/-- The size of an entry. -/
def RingId.entry : RingId → Nat
  | .sq _ => sizeofSqe
  | .cq _ => sizeofCqe

def World.setCommon (w : World) : RingId → Nat → Nat → World
  | .sq i => w.setSqCommon i
  | .cq i => w.setCqCommon i

def World.setRing (w : World) : RingId → Nat → World
  | .sq i => w.setSqe i
  | .cq i => w.setCqe i

def World.initRing (w : World) (qIdx length a : Nat) : RingId → World
  | .sq i => w.setQ i (initSq (w.q i) w.sys.doorbellStride qIdx length a)
  | .cq i => w.setQ i (initCq (w.q i) w.sys.doorbellStride qIdx length a)

/-- `nvme_init_sq` and `nvme_init_cq` are the same but for the ring. -/
def initRing (r : RingId) (qIdx length : Nat) : Drv Int := do
  Prog.modify (·.setCommon r qIdx length)
  let a ← zallocPageAligned r.site (r.entry * length)
  Prog.modify (·.setRing r a)
  if a = 0 then
    warn .noalloc
    return -1
  else
    Prog.modify (·.initRing qIdx length a r)
    return 0

theorem nvmeInitSq_eq (i : QId) (qIdx length : Nat) :
    nvmeInitSq i qIdx length = initRing (.sq i) qIdx length := rfl

theorem nvmeInitCq_eq (i : QId) (qIdx length : Nat) :
    nvmeInitCq i qIdx length = initRing (.cq i) qIdx length := rfl

section Rings

variable (w : World) (r : RingId) (qIdx length a : Nat)

/-- The driver's side of one pair is set, the controller's stays. -/
theorem setCommon_pair : ∃ q, w.setCommon r qIdx length = w.setQ r.queue q ∧
    q.ctl = (w.q r.queue).ctl := by
  cases r <;> exact ⟨_, rfl, rfl⟩

theorem setRing_pair : ∃ q, w.setRing r a = w.setQ r.queue q ∧ q.ctl = (w.q r.queue).ctl := by
  cases r <;> exact ⟨_, rfl, rfl⟩

theorem initRing_pair : ∃ q, w.initRing qIdx length a r = w.setQ r.queue q ∧
    q.ctl = (w.q r.queue).ctl := by
  cases r <;> exact ⟨_, rfl, rfl⟩

end Rings

theorem does_waitCstsRdy {ρ : World → World → Prop} (hrefl : ∀ w, ρ w w)
    (huse : ∀ w v, ρ w (w.use (.csts v))) (hwarn : ∀ c, (warn c).Does ρ)
    (rdy : Nat) : (nvmeWaitCstsRdy rdy).Does ρ := by
  have hloop : ∀ n, (cstsLoop rdy n).Does ρ := by
    intro n
    induction n with
    | zero => exact .bind (hwarn _) fun _ => .ret
    | succ n ih =>
      refine .bind (.act fun w => huse w _) fun csts => ?_
      split
      · exact .ret
      · split
        · exact .ret
        · exact ih
  exact .bind (.get hrefl _) fun cap => hloop _

theorem does_initRing {ρ : World → World → Prop} {r : RingId} (hset : ∀ w q, ρ w (w.setQ r.queue q))
    (hzalloc : ∀ size, (zallocPageAligned r.site size).Does ρ) (hwarn : ∀ c, (warn c).Does ρ)
    (qIdx length : Nat) : (initRing r qIdx length).Does ρ := by
  have hpair : ∀ {f : World → World}, (∀ w, ∃ q, f w = w.setQ r.queue q ∧
      q.ctl = (w.q r.queue).ctl) → (Prog.modify f : Drv Unit).Does ρ := fun hf => .modify fun w => by
    obtain ⟨q, hq, _⟩ := hf w
    rw [hq]
    exact hset w q
  refine .bind (hpair fun w => setCommon_pair w r _ _) fun _ => .bind (hzalloc _) fun a => ?_
  refine .bind (hpair fun w => setRing_pair w r a) fun _ => ?_
  split
  · exact .bind (hwarn _) fun _ => .ret
  · exact .bind (hpair fun w => initRing_pair w r _ _ a) fun _ => .ret

/-- `ρ` allows the actions the functions are made of, on the rings of the pairs `J`. -/
structure Routine (J : QId → Prop) (ρ : World → World → Prop) : Prop where
  refl : ∀ w, ρ w w
  poll : ∀ w v, ρ w (w.use (.csts v))
  onQueue : ∀ {j c w v}, OnQueue j c w v → ρ w v
  zalloc : ∀ {site} size, site ≠ .ns → (zallocPageAligned site size).Does ρ
  warn : ∀ c, (warn c).Does ρ
  free : ∀ a, (free a).Does ρ
  setQ : ∀ {j}, J j → ∀ w q, ρ w (w.setQ j q)

namespace Routine

variable {J : QId → Prop} {ρ : World → World → Prop} {j : QId}

theorem get {α : Type} (h : Routine J ρ) (g : World → α) : (Prog.get g : Drv α).Does ρ := .get h.refl g

/-- Changes of a pair. -/
theorem set (h : Routine J ρ) (hj : J j) {f : World → World} (hf : ∀ w, ∃ q, f w = w.setQ j q) :
    (Prog.modify f : Drv Unit).Does ρ :=
  .modify fun w => by
    obtain ⟨q, hq⟩ := hf w
    rw [hq]
    exact h.setQ hj w q

theorem submit {α : Type} (h : Routine J ρ) {opc metadata data data2 nsid dword10 dword11 dword12 : Nat}
    {full : Drv α} {k : NvmeCqe → Drv α} (hfull : full.Does ρ) (hk : ∀ c, (k c).Does ρ) :
    Prog.Does ρ (do
      match ← getNextSqe .admin opc metadata data data2 with
      | none => full
      | some slot =>
        fillIn .admin (some slot) nsid dword10 dword11 dword12
        commitSqe .admin
        let cqe ← nvmeWait .admin
        k cqe) := by
  refine .bind ((does_getNextSqe ..).mono fun _ _ => h.onQueue) fun slot => ?_
  cases slot with
  | none => exact hfull
  | some s =>
    refine .bind ((does_fillIn ..).mono fun _ _ => h.onQueue) fun _ => ?_
    refine .bind ((does_commitSqe _).mono fun _ _ => h.onQueue) fun _ => ?_
    exact .bind ((does_wait _).mono fun _ _ => h.onQueue) hk

theorem identify (h : Routine J ρ) (cns nsid : Nat) : (nvmeAdminIdentify cns nsid).Does ρ := by
  refine .bind (h.zalloc _ (by decide)) fun id => ?_
  split
  · exact .bind (h.warn _) fun _ => .ret
  · refine h.submit (.bind (h.warn _) fun _ => .bind (h.free _) fun _ => .ret) fun c => ?_
    split
    · exact .ret
    · exact .bind (h.free _) fun _ => .ret

theorem initRing (h : Routine J ρ) {r : RingId} (hr : J r.queue) (qIdx length : Nat) :
    (Nvme.initRing r qIdx length).Does ρ :=
  does_initRing (h.setQ hr) (fun _ => h.zalloc _ (by cases r <;> simp [RingId.site])) h.warn qIdx length

theorem initCq (h : Routine J ρ) (hj : J j) (qIdx length : Nat) : (nvmeInitCq j qIdx length).Does ρ :=
  h.initRing (r := .cq j) hj qIdx length

theorem initSq (h : Routine J ρ) (hj : J j) (qIdx length : Nat) : (nvmeInitSq j qIdx length).Does ρ :=
  h.initRing (r := .sq j) hj qIdx length

theorem destroyCq (h : Routine J ρ) (hj : J j) : (nvmeDestroyCq j).Does ρ :=
  .bind (h.get _) fun _ => .bind (h.free _) fun _ => h.set hj fun _ => ⟨_, rfl⟩

theorem destroySq (h : Routine J ρ) (hj : J j) : (nvmeDestroySq j).Does ρ :=
  .bind (h.get _) fun _ => .bind (h.free _) fun _ => h.set hj fun _ => ⟨_, rfl⟩

theorem createIoQueues (h : Routine J ρ) (hj : J .io) : nvmeCreateIoQueues.Does ρ := by
  have hcreate : ∀ {destroy : Drv Unit} (c : NvmeCqe), destroy.Does ρ →
      Prog.Does ρ (if nvmeIsCqeSuccess c then pure (0 : Int) else do destroy; return -1) := by
    intro destroy c hd
    split
    · exact .ret
    · exact .bind hd fun _ => .ret
  have hcq : (nvmeCreateIoCq 3).Does ρ := by
    refine .bind (h.get _) fun cap => .bind (h.initCq hj _ _) fun rc => ?_
    split
    · exact .ret
    · exact .bind (h.get _) fun cq => h.submit (.bind (h.destroyCq hj) fun _ => .ret) fun c =>
        hcreate c (h.destroyCq hj)
  have hsq : (nvmeCreateIoSq 2).Does ρ := by
    refine .bind (h.get _) fun cap => .bind (h.initSq hj _ _) fun rc => ?_
    split
    · exact .ret
    · exact .bind (h.get _) fun sq => h.submit (.bind (h.destroySq hj) fun _ => .ret) fun c =>
        hcreate c (h.destroySq hj)
  refine .bind hcq fun rc => ?_
  split
  · exact .ret
  · refine .bind hsq fun rc => ?_
    split
    · exact .bind (h.destroyCq hj) fun _ => .ret
    · exact .ret

theorem destroyAdminQueues (h : Routine J ρ) (hj : J .admin) : Nvme.destroyAdminQueues.Does ρ :=
  .bind (h.destroySq hj) fun _ => .bind (h.destroyCq hj) fun _ => .ret

theorem waitCstsRdy (h : Routine J ρ) (rdy : Nat) : (nvmeWaitCstsRdy rdy).Does ρ :=
  does_waitCstsRdy h.refl h.poll h.warn rdy

end Routine

end Nvme
