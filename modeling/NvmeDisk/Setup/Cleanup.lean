import NvmeDisk.Setup.Inventory
import NvmeDisk.Setup.Routine

/-! A failed controller setup leaves the heap as it found it. Function by function: what each returns
    with and what it then owns; every clean-up label releases what was acquired on the way to it. -/

namespace Nvme
open Bytes BlockDev Resume Mheap

variable {h₀ : Heap Site} {x y : Inventory} {w v : World} {i : QId}

/-! ### Rings -/

def Inventory.setCqe (x : Inventory) (i : QId) (a : Nat) : Inventory :=
  { x with cqe := Function.update x.cqe i a }

def Inventory.setSqe (x : Inventory) (i : QId) (a : Nat) : Inventory :=
  { x with sqe := Function.update x.sqe i a }

@[simp] theorem Inventory.setCqe_same (x : Inventory) (i : QId) (a : Nat) :
    (x.setCqe i a).cqe i = a := Function.update_self ..

theorem Inventory.setCqe_ne (x : Inventory) {i j : QId} (a : Nat) (h : j ≠ i) :
    (x.setCqe i a).cqe j = x.cqe j := Function.update_of_ne h ..

@[simp] theorem Inventory.setSqe_same (x : Inventory) (i : QId) (a : Nat) :
    (x.setSqe i a).sqe i = a := Function.update_self ..

theorem Inventory.setSqe_ne (x : Inventory) {i j : QId} (a : Nat) (h : j ≠ i) :
    (x.setSqe i a).sqe j = x.sqe j := Function.update_of_ne h ..

def Inventory.add (x : Inventory) (b : Block Site) : Inventory := { x with own := b :: x.own }

theorem Stock.setCqe (h : Stock h₀ x w) (i : QId) {q : QPair} (hs : q.sq.sqe = (w.q i).sq.sqe) :
    Stock h₀ (x.setCqe i q.cq.cqe) (w.setQ i q) :=
  { h with
    cqe := fun j => by
      by_cases hj : j = i
      · rw [hj, World.setQ_q_same]; exact (x.setCqe_same i _).symm
      · rw [World.setQ_q_ne _ _ hj, h.cqe]; exact (x.setCqe_ne _ hj).symm
    sqe := fun j => by
      by_cases hj : j = i
      · rw [hj, World.setQ_q_same, hs]; exact h.sqe i
      · rw [World.setQ_q_ne _ _ hj]; exact h.sqe j }

theorem Stock.setSqe (h : Stock h₀ x w) (i : QId) {q : QPair} (hc : q.cq.cqe = (w.q i).cq.cqe) :
    Stock h₀ (x.setSqe i q.sq.sqe) (w.setQ i q) :=
  { h with
    cqe := fun j => by
      by_cases hj : j = i
      · rw [hj, World.setQ_q_same, hc]; exact h.cqe i
      · rw [World.setQ_q_ne _ _ hj]; exact h.cqe j
    sqe := fun j => by
      by_cases hj : j = i
      · rw [hj, World.setQ_q_same]; exact (x.setSqe_same i _).symm
      · rw [World.setQ_q_ne _ _ hj, h.sqe]; exact (x.setSqe_ne _ hj).symm }

/-- A ring is allocated and recorded by `set`, or there is none. -/
def Ringed (site : Site) (set : Inventory → Nat → Inventory) (x : Inventory) (rc : Int)
    (y : Inventory) : Prop :=
  (rc = -1 ∧ y = set x 0) ∨
    ∃ b : Block Site, b.addr ≠ 0 ∧ b.site = site ∧ rc = 0 ∧ y = set (x.add b) b.addr

/-- `nvme_init_sq` and `nvme_init_cq` up to the fields they set. -/
theorem gives_initRing {site : Site} {size : Nat} {set : Inventory → Nat → Inventory}
    {common : World → World} {setRing init : Nat → World → World}
    (hcommon : ∀ w, Unlisted w (common w))
    (hset : ∀ y a w, Stock h₀ y w → Stock h₀ (set y a) (setRing a w))
    (hinit : ∀ y a w, Stock h₀ (set y a) w → Stock h₀ (set y a) (init a w)) :
    Gives h₀ x (do
      Prog.modify common
      let a ← zallocPageAligned site size
      Prog.modify (setRing a)
      if a = 0 then
        warn .noalloc
        return -1
      else
        Prog.modify (init a)
        return 0) (Ringed site set x) := by
  refine Unlists.pass (.modify hcommon) fun _ => ?_
  refine (gives_zalloc _ _).bind fun a y hy => ?_
  refine (gives_modify (hset y a)).bind ?_
  rintro _ _ rfl
  rcases hy with ⟨rfl, rfl⟩ | ⟨b, rfl, h0, hsite, rfl⟩
  · rw [if_pos rfl]
    refine (unlists_warn _).pass fun _ => ?_
    exact gives_ret (.inl ⟨rfl, rfl⟩)
  · rw [if_neg h0]
    refine (gives_keeps (.modify (hinit _ _))).bind ?_
    rintro _ _ rfl
    exact gives_ret (.inr ⟨b, h0, hsite, rfl, rfl⟩)

theorem gives_initSq (i : QId) (qIdx length : Nat) :
    Gives h₀ x (nvmeInitSq i qIdx length) (Ringed (.sqRing i) (·.setSqe i ·) x) :=
  gives_initRing
    (fun w => .setQ w i (q := { w.q i with sq := { (w.q i).sq with
      common := nvmeInitQueueCommon w.sys.doorbellStride qIdx length } }) rfl rfl)
    (fun y a w h => h.setSqe i (q := { w.q i with sq := { (w.q i).sq with sqe := a } }) rfl)
    fun y a w h => (Unlisted.setQ w i (q := initSq (w.q i) w.sys.doorbellStride qIdx length a) rfl
      (by rw [h.sqe, Inventory.setSqe_same]; rfl)).stock h

theorem gives_initCq (i : QId) (qIdx length : Nat) :
    Gives h₀ x (nvmeInitCq i qIdx length) (Ringed (.cqRing i) (·.setCqe i ·) x) :=
  gives_initRing
    (fun w => .setQ w i (q := { w.q i with cq := { (w.q i).cq with
      common := nvmeInitQueueCommon w.sys.doorbellStride qIdx length } }) rfl rfl)
    (fun y a w h => h.setCqe i (q := { w.q i with cq := { (w.q i).cq with cqe := a } }) rfl)
    fun y a w h => (Unlisted.setQ w i (q := initCq (w.q i) w.sys.doorbellStride qIdx length a)
      (by rw [h.cqe, Inventory.setCqe_same]; rfl) rfl).stock h

theorem gives_destroySq {b : Block Site} {own : List (Block Site)}
    (hown : x.own = b :: own) (hi : x.sqe i = b.addr) (h0 : b.addr ≠ 0) :
    Gives h₀ x (nvmeDestroySq i) fun _ y => y = { x.setSqe i 0 with own := own } := by
  refine (gives_get _).bind ?_
  rintro a y ⟨rfl, w, hw, rfl⟩
  rw [hw.sqe, hi]
  refine (gives_free_top hown h0).bind ?_
  rintro _ _ rfl
  exact gives_modify fun w h => h.setSqe i (q := { w.q i with sq := { (w.q i).sq with sqe := 0 } }) rfl

theorem gives_destroyCq {b : Block Site} {own : List (Block Site)}
    (hown : x.own = b :: own) (hi : x.cqe i = b.addr) (h0 : b.addr ≠ 0) :
    Gives h₀ x (nvmeDestroyCq i) fun _ y => y = { x.setCqe i 0 with own := own } := by
  refine (gives_get _).bind ?_
  rintro a y ⟨rfl, w, hw, rfl⟩
  rw [hw.cqe, hi]
  refine (gives_free_top hown h0).bind ?_
  rintro _ _ rfl
  exact gives_modify fun w h => h.setCqe i (q := { w.q i with cq := { (w.q i).cq with cqe := 0 } }) rfl

/-! ### Identify -/

/-- An Identify command frees its buffer unless it returns it. -/
theorem gives_identify (cns nsid : Nat) :
    Gives h₀ x (nvmeAdminIdentify cns nsid) (Allocated .identify x) := by
  refine (gives_zalloc _ _).bind fun a y hy => ?_
  rcases hy with ⟨rfl, rfl⟩ | ⟨b, rfl, h0, hsite, rfl⟩
  · rw [if_pos rfl]
    refine (unlists_warn _).pass fun _ => ?_
    exact gives_ret (.inl ⟨rfl, rfl⟩)
  · rw [if_neg h0]
    have hfree : Gives h₀ { x with own := b :: x.own } (do free b.addr; return 0)
        (Allocated .identify x) := by
      refine (gives_free_top rfl h0).bind ?_
      rintro _ _ rfl
      exact gives_ret (.inl ⟨rfl, rfl⟩)
    refine (unlists_getNextSqe _ _ _ _ _).pass fun slot => ?_
    cases slot with
    | none =>
      refine (unlists_warn _).pass fun _ => ?_
      exact hfree
    | some s =>
      refine (unlists_fillIn _ _ _ _ _ _).pass fun _ => ?_
      refine (unlists_commitSqe _).pass fun _ => ?_
      refine (unlists_wait _).pass fun c => ?_
      split
      · exact gives_ret (.inr ⟨b, rfl, h0, hsite, rfl⟩)
      · exact hfree

/-! ### Namespaces -/

/-- What probing added: the records of the namespaces accepted and, on first use, the bounce page. -/
structure Probed (x : Inventory) (recs dmas : List (Block Site)) (y : Inventory) : Prop where
  own : ∃ new, y.own = new ++ x.own ∧ new.Perm (recs ++ dmas)
  cqe : y.cqe = x.cqe
  sqe : y.sqe = x.sqe
  recSite : ∀ b ∈ recs, b.site = .ns
  recs : y.recs = recs.map (·.addr) ++ x.recs
  dma : (dmas = [] ∧ y.dma = x.dma) ∨
    ∃ b : Block Site, dmas = [b] ∧ b.site = .dma ∧ x.dma = 0 ∧ y.dma = b.addr ∧ b.addr ≠ 0

theorem Probed.refl (x : Inventory) : Probed x [] [] x :=
  ⟨⟨[], rfl, .nil⟩, rfl, rfl, by simp, rfl, .inl ⟨rfl, rfl⟩⟩

theorem Probed.trans {z : Inventory} {recs dmas recs' dmas' : List (Block Site)}
    (h : Probed x recs dmas y) (h' : Probed y recs' dmas' z) :
    Probed x (recs' ++ recs) (dmas' ++ dmas) z where
  own := by
    obtain ⟨new, hown, hp⟩ := h.own
    obtain ⟨new', hown', hp'⟩ := h'.own
    refine ⟨new' ++ new, by rw [hown', hown, List.append_assoc], (hp'.append hp).trans ?_⟩
    simp only [List.append_assoc]
    refine List.Perm.append_left _ ?_
    rw [← List.append_assoc, ← List.append_assoc]
    exact List.Perm.append_right _ List.perm_append_comm
  cqe := h'.cqe.trans h.cqe
  sqe := h'.sqe.trans h.sqe
  recSite := fun b hb => (List.mem_append.mp hb).elim (h'.recSite b) (h.recSite b)
  recs := by rw [h'.recs, h.recs, List.map_append, List.append_assoc]
  dma := by
    rcases h.dma with ⟨rfl, hd⟩ | ⟨b, rfl, hb, hx, hy, h0⟩
    · rcases h'.dma with ⟨rfl, hd'⟩ | ⟨b, rfl, hb, hx, hy, h0⟩
      · exact .inl ⟨rfl, hd'.trans hd⟩
      · exact .inr ⟨b, rfl, hb, hd ▸ hx, hy, h0⟩
    · -- the page exists now: it is not allocated again
      rcases h'.dma with ⟨rfl, hd'⟩ | ⟨b', _, _, hx', _, _⟩
      · exact .inr ⟨b, rfl, hb, hx, hd'.trans hy, h0⟩
      · exact absurd (hy.symm.trans hx') h0

/-- Probing as seen from a call that owns more: the result. -/
def Probes (x : Inventory) (y : Inventory) : Prop := ∃ recs dmas, Probed x recs dmas y

theorem Probes.trans {z : Inventory} (h : Probes x y) (h' : Probes y z) : Probes x z := by
  obtain ⟨_, _, h⟩ := h
  obtain ⟨_, _, h'⟩ := h'
  exact ⟨_, _, h.trans h'⟩

theorem gives_ensureDma : Gives h₀ x ensureDmaBuffer fun _ y => Probes x y := by
  refine (gives_get _).bind ?_
  rintro dma x ⟨rfl, w, hw, rfl⟩
  split
  · exact gives_ret ⟨_, _, .refl _⟩
  · rename_i hd
    have hx : x.dma = 0 := by rw [← hw.dma]; exact not_not.mp hd
    refine (gives_zalloc _ _).bind fun a y hy => ?_
    have hset : ∀ y, Gives h₀ y (Prog.modify fun w : World => w.setSys { w.sys with nvmeDmaBuffer := a })
        fun _ z => z = { y with dma := a } := fun y => gives_modify fun w h => { h with dma := rfl }
    refine (hset y).bind ?_
    rintro _ _ rfl
    rcases hy with ⟨rfl, rfl⟩ | ⟨b, rfl, h0, hsite, rfl⟩
    · rw [if_pos rfl]
      refine (unlists_warn _).pass fun _ => ?_
      exact gives_ret ⟨[], [], ⟨[], rfl, .nil⟩, rfl, rfl, by simp, rfl,
        .inl ⟨rfl, hx.symm⟩⟩
    · rw [if_neg h0]
      exact gives_ret ⟨[], [b], ⟨[b], rfl, .refl _⟩, rfl, rfl, by simp, rfl,
        .inr ⟨b, rfl, hsite, hx, rfl, h0⟩⟩

theorem gives_idNs {α : Type} (id : Nat) (field : NvmeIdentifyNs → α) :
    Gives h₀ x (idNs id field) fun _ y => y = x := Unlists.gives (unlists_get _)

theorem gives_recordNs (id nsId mdts currentLbaFormat : Nat) :
    Gives h₀ x (recordNs id nsId mdts currentLbaFormat) fun _ y => Probes x y := by
  refine (gives_malloc _ _).bind fun a y hy => ?_
  have hns : ∀ y, Gives h₀ y (Prog.modify fun w : World => w.setSys { w.sys with ns := a })
      fun _ z => z = y := fun y => gives_modify fun w h => { h with }
  refine (hns y).bind ?_
  rintro _ _ rfl
  rcases hy with ⟨rfl, rfl⟩ | ⟨b, rfl, h0, hsite, rfl⟩
  · rw [if_pos rfl]
    exact (Unlists.gives (unlists_warn _)).mono fun _ _ h => h ▸ ⟨_, _, .refl _⟩
  · rw [if_neg h0]
    refine (gives_idNs _ _).pass fun lbaCount => ?_
    refine (unlists_getUsed _ _).pass fun lbads => ?_
    refine (unlists_getUsed _ _).pass fun ms => ?_
    have hrec : ∀ ns y, Gives h₀ y (Prog.modify fun w : World => w.setNs b.addr ns)
        fun _ z => z = y := fun ns y => gives_modify fun w h => { h with }
    dsimp only
    split
    · refine (hrec _ _).bind ?_
      rintro _ _ rfl
      refine (unlists_warn _).pass fun _ => ?_
      exact (gives_free_top rfl h0).mono fun _ _ h => h ▸ ⟨_, _, .refl _⟩
    · refine (gives_modify (y := { x with own := b :: x.own, recs := b.addr :: x.recs })
        fun w h => ?_).mono fun _ z hz => hz ▸ ⟨[b], [], ⟨[b], rfl, .refl _⟩, rfl, rfl,
          fun c hc => by rw [List.mem_singleton.mp hc]; exact hsite, rfl, .inl ⟨rfl, rfl⟩⟩
      exact { h with recs := congrArg (b.addr :: ·) h.recs }

theorem gives_probeIdentified (id nsId mdts : Nat) :
    Gives h₀ x (probeIdentified id nsId mdts) fun _ y => Probes x y := by
  refine (gives_idNs _ _).pass fun fmt => ?_
  refine (gives_idNs _ _).pass fun nlbaf => ?_
  split
  · exact gives_ret ⟨_, _, .refl _⟩
  · refine (gives_idNs _ _).pass fun nsze => ?_
    split
    · exact gives_ret ⟨_, _, .refl _⟩
    · refine gives_ensureDma.bind fun dma y hy => ?_
      split
      · exact gives_ret hy
      · exact (gives_recordNs _ _ _ _).mono fun _ _ hz => hy.trans hz

theorem gives_probeNs (nsIdx mdts : Nat) :
    Gives h₀ x (nvmeProbeNs nsIdx mdts) fun _ y => Probes x y := by
  refine (gives_identify _ _).bind fun id y hy => ?_
  rcases hy with ⟨rfl, rfl⟩ | ⟨b, rfl, h0, hsite, rfl⟩
  · rw [if_pos rfl]
    exact gives_ret ⟨_, _, .refl _⟩
  · rw [if_neg h0]
    refine (gives_probeIdentified _ _ _).bind ?_
    -- what was added lies above the Identify buffer, which goes
    rintro _ y ⟨recs, dmas, hp⟩
    obtain ⟨new, hown, hperm⟩ := hp.own
    exact (gives_free hown h0).mono fun _ z hz => hz ▸ ⟨recs, dmas, { hp with
      own := ⟨new, rfl, hperm⟩ }⟩

theorem gives_probeLoop (mdts : Nat) : ∀ (n nsIdx : Nat) (x : Inventory),
    Gives h₀ x (probeLoop mdts n nsIdx) fun _ y => Probes x y
  | 0, _, _ => gives_ret ⟨_, _, .refl _⟩
  | n + 1, nsIdx, _ => (gives_probeNs _ _).bind fun _ y hy =>
      (gives_probeLoop mdts n (nsIdx + 1) y).mono fun _ _ hz => hy.trans hz

/-! ### I/O queues -/

/-- Submit a create command; where it does not succeed, `destroy` gives back the ring. -/
theorem gives_create {opc a nsid dword10 dword11 dword12 : Nat} {destroy : Drv Unit} {z : Inventory}
    (hdestroy : Gives h₀ x destroy fun _ y => y = z) :
    Gives h₀ x (do
      match ← getNextSqe .admin opc 0 a 0 with
      | none =>
        destroy
        return -1
      | some slot =>
        fillIn .admin (some slot) nsid dword10 dword11 dword12
        commitSqe .admin
        let cqe ← nvmeWait .admin
        if nvmeIsCqeSuccess cqe then return 0
        else
          destroy
          return -1) fun (rc : Int) y => (rc = -1 ∧ y = z) ∨ (rc = 0 ∧ y = x) := by
  have hfail : Gives h₀ x (do destroy; return -1) fun (rc : Int) y =>
      (rc = -1 ∧ y = z) ∨ (rc = 0 ∧ y = x) :=
    hdestroy.bind fun _ _ hy => gives_ret (.inl ⟨rfl, hy⟩)
  refine (unlists_getNextSqe _ _ _ _ _).pass fun slot => ?_
  cases slot with
  | none => exact hfail
  | some s =>
    refine (unlists_fillIn _ _ _ _ _ _).pass fun _ => ?_
    refine (unlists_commitSqe _).pass fun _ => ?_
    refine (unlists_wait _).pass fun c => ?_
    split
    · exact gives_ret (.inr ⟨rfl, rfl⟩)
    · exact hfail

theorem gives_createIoCq (qIdx : Nat) :
    Gives h₀ x (nvmeCreateIoCq qIdx) (Ringed (.cqRing .io) (·.setCqe .io ·) x) := by
  refine (unlists_get _).pass fun cap => ?_
  refine (gives_initCq _ _ _).bind fun rc y hy => ?_
  rcases hy with ⟨rfl, rfl⟩ | ⟨b, h0, hsite, rfl, rfl⟩
  · exact gives_ret (.inl ⟨rfl, rfl⟩)
  · refine (unlists_get _).pass fun cq => ?_
    refine (gives_create (gives_destroyCq rfl (Inventory.setCqe_same ..) h0)).mono ?_
    rintro rc z (⟨rfl, rfl⟩ | ⟨rfl, rfl⟩)
    · exact .inl ⟨rfl, by simp [Inventory.setCqe, Inventory.add]⟩
    · exact .inr ⟨b, h0, hsite, rfl, rfl⟩

theorem gives_createIoSq (qIdx : Nat) :
    Gives h₀ x (nvmeCreateIoSq qIdx) (Ringed (.sqRing .io) (·.setSqe .io ·) x) := by
  refine (unlists_get _).pass fun cap => ?_
  refine (gives_initSq _ _ _).bind fun rc y hy => ?_
  rcases hy with ⟨rfl, rfl⟩ | ⟨b, h0, hsite, rfl, rfl⟩
  · exact gives_ret (.inl ⟨rfl, rfl⟩)
  · refine (unlists_get _).pass fun sq => ?_
    refine (gives_create (gives_destroySq rfl (Inventory.setSqe_same ..) h0)).mono ?_
    rintro rc z (⟨rfl, rfl⟩ | ⟨rfl, rfl⟩)
    · exact .inl ⟨rfl, by simp [Inventory.setSqe, Inventory.add]⟩
    · exact .inr ⟨b, h0, hsite, rfl, rfl⟩

/-- Everything an inventory says beside its blocks and the I/O rings is as before. -/
structure SameAdmin (x y : Inventory) : Prop where
  cqe : y.cqe .admin = x.cqe .admin
  sqe : y.sqe .admin = x.sqe .admin
  dma : y.dma = x.dma
  recs : y.recs = x.recs

/-- Both I/O rings, or neither. -/
theorem gives_createIoQueues : Gives h₀ x nvmeCreateIoQueues fun rc y => SameAdmin x y ∧
    ((rc = -1 ∧ y.own = x.own) ∨ ∃ bs bc : Block Site, bs.site = .sqRing .io ∧
      bc.site = .cqRing .io ∧ rc = 0 ∧ y.own = bs :: bc :: x.own) := by
  refine (gives_createIoCq _).bind fun rc y hy => ?_
  rcases hy with ⟨rfl, rfl⟩ | ⟨bc, h0, hsite, rfl, rfl⟩
  · exact gives_ret ⟨⟨rfl, rfl, rfl, rfl⟩, .inl ⟨rfl, rfl⟩⟩
  · refine (gives_createIoSq _).bind fun rc z hz => ?_
    rcases hz with ⟨rfl, rfl⟩ | ⟨bs, h0', hsite', rfl, rfl⟩
    · refine Drives.bind (gives_destroyCq (b := bc) rfl ((x.add bc).setCqe_same .io _) h0) ?_
      rintro _ _ rfl
      exact gives_ret ⟨⟨rfl, rfl, rfl, rfl⟩, .inl ⟨rfl, rfl⟩⟩
    · exact gives_ret ⟨⟨rfl, rfl, rfl, rfl⟩, .inr ⟨bs, bc, hsite', hsite, rfl, rfl⟩⟩

/-! ### The controller -/

theorem unlists_waitCstsRdy (rdy : Nat) : Unlists (nvmeWaitCstsRdy rdy) :=
  does_waitCstsRdy Unlisted.refl (fun w _ => .use w _) unlists_warn rdy

/-- The blocks of an enabled controller beyond `x`: rings, bounce page, namespace records. -/
structure Rings (x : Inventory) (recs dmas rings : List (Block Site)) (y : Inventory) : Prop where
  own : ∃ new, y.own = new ++ rings ++ x.own ∧ new.Perm (recs ++ dmas)
  sites : rings.map (·.site) = [.sqRing .io, .cqRing .io, .sqRing .admin, .cqRing .admin]
  recSite : ∀ b ∈ recs, b.site = .ns
  recs : y.recs = recs.map (·.addr) ++ x.recs
  dma : (dmas = [] ∧ y.dma = x.dma) ∨
    ∃ b : Block Site, dmas = [b] ∧ b.site = .dma ∧ x.dma = 0 ∧ y.dma = b.addr ∧ b.addr ≠ 0

/-- `nvme_controller_enable` failed and owns nothing, or succeeded and owns what it should. -/
def Enabled (x : Inventory) (rc : Int) (y : Inventory) : Prop :=
  (rc = -1 ∧ y.own = x.own) ∨ (rc = 0 ∧ ∃ recs dmas rings, Rings x recs dmas rings y)

/-- The admin rings on top of `x`. -/
structure AdminRings (x : Inventory) (sq cq : Block Site) (y : Inventory) : Prop where
  own : y.own = sq :: cq :: x.own
  sqe : y.sqe .admin = sq.addr
  cqe : y.cqe .admin = cq.addr
  sqLive : sq.addr ≠ 0
  cqLive : cq.addr ≠ 0
  sqSite : sq.site = .sqRing .admin
  cqSite : cq.site = .cqRing .admin
  dma : y.dma = x.dma
  recs : y.recs = x.recs

theorem gives_destroyAdmin {sq cq : Block Site} (h : AdminRings x sq cq y) :
    Gives h₀ y destroyAdminQueues (Enabled x) := by
  refine (gives_destroySq h.own h.sqe h.sqLive).bind ?_
  rintro _ _ rfl
  refine Drives.bind (gives_destroyCq (b := cq) rfl h.cqe h.cqLive) ?_
  rintro _ _ rfl
  exact gives_ret (.inl ⟨rfl, rfl⟩)

theorem gives_enableIdentified {sq cq : Block Site} (h : AdminRings x sq cq y) :
    Gives h₀ y enableIdentified (Enabled x) := by
  refine (gives_identify _ _).bind fun id z hz => ?_
  rcases hz with ⟨rfl, rfl⟩ | ⟨b, rfl, h0, _, rfl⟩
  · rw [if_pos rfl]
    exact gives_destroyAdmin h
  · rw [if_neg h0]
    refine (unlists_getUsed _ _).pass fun nn => ?_
    refine gives_modify_bind (y := { y with own := b :: y.own }) (fun w h => { h with }) ?_
    refine (unlists_get _).pass fun mdts => ?_
    refine (gives_free_top rfl h0).bind ?_
    rintro _ _ rfl
    split
    · exact gives_destroyAdmin h
    · refine gives_createIoQueues.bind ?_
      rintro rc z ⟨hsame, ⟨rfl, hown⟩ | ⟨bs, bc, hbs, hbc, rfl, hown⟩⟩
      · exact gives_destroyAdmin { h with
          own := hown.trans h.own
          sqe := hsame.sqe.trans h.sqe
          cqe := hsame.cqe.trans h.cqe
          dma := hsame.dma.trans h.dma
          recs := hsame.recs.trans h.recs }
      · refine (gives_probeLoop _ _ _ _).bind ?_
        rintro _ u ⟨recs, dmas, hp⟩
        obtain ⟨new, hu, hperm⟩ := hp.own
        refine gives_ret (.inr ⟨rfl, recs, dmas, [bs, bc, sq, cq], ?_⟩)
        have hdma : z.dma = x.dma := hsame.dma.trans h.dma
        have hz : z.own = [bs, bc, sq, cq] ++ x.own := by
          rw [hown]
          exact congrArg (bs :: bc :: ·) h.own
        exact {
          own := ⟨new, by rw [hu, hz, List.append_assoc], hperm⟩
          sites := by simp [hbs, hbc, h.sqSite, h.cqSite]
          recSite := hp.recSite
          recs := by rw [hp.recs]; exact congrArg (_ ++ ·) (hsame.recs.trans h.recs)
          dma := by rw [← hdma]; exact hp.dma }

/-- Register writes change nothing an inventory lists. -/
theorem unlists_reg {f : World → World} (hf : ∀ w, (f w).sys = w.sys ∧ (f w).q = w.q ∧
    accepted (f w).log = accepted w.log) : Unlists (.modify f) :=
  Prog.Does.modify fun w => by
    obtain ⟨hs, hq, hl⟩ := hf w
    exact ⟨by rw [hs], fun i => by rw [hq], fun i => by rw [hq], by rw [hs], hl⟩

theorem gives_enable : Gives h₀ x nvmeControllerEnable (Enabled x) := by
  refine Unlists.pass (unlists_reg fun w => ⟨rfl, rfl, rfl⟩) fun _ => ?_
  refine (unlists_waitCstsRdy 0).pass fun rc => ?_
  split
  · exact gives_ret (.inl ⟨rfl, rfl⟩)
  refine (unlists_get _).pass fun cap => ?_
  refine gives_modify_bind (y := x) (fun w h => { h with }) ?_
  refine (gives_initCq _ _ _).bind fun rc y hy => ?_
  rcases hy with ⟨rfl, rfl⟩ | ⟨cq, hcq, hcsite, rfl, rfl⟩
  · exact gives_ret (.inl ⟨rfl, rfl⟩)
  refine (gives_initSq _ _ _).bind fun rc z hz => ?_
  rcases hz with ⟨rfl, rfl⟩ | ⟨sq, hsq, hssite, rfl, rfl⟩
  · refine Drives.bind (gives_destroyCq (b := cq) rfl ((x.add cq).setCqe_same .admin _) hcq) ?_
    rintro _ _ rfl
    exact gives_ret (.inl ⟨rfl, rfl⟩)
  have hrings : AdminRings x sq cq
      ((((x.add cq).setCqe .admin cq.addr).add sq).setSqe .admin sq.addr) :=
    ⟨rfl, Inventory.setSqe_same .., (x.add cq).setCqe_same .admin _, hsq, hcq, hssite, hcsite, rfl, rfl⟩
  refine Unlists.pass (unlists_reg fun w => ⟨rfl, rfl, rfl⟩) fun _ => ?_
  refine Unlists.pass (unlists_reg fun w => ⟨rfl, rfl, rfl⟩) fun _ => ?_
  refine Unlists.pass (unlists_reg fun w => ⟨rfl, rfl, rfl⟩) fun _ => ?_
  refine Unlists.pass (unlists_reg fun w => ⟨rfl, rfl, rfl⟩) fun _ => ?_
  refine (unlists_waitCstsRdy 1).pass fun rc => ?_
  split
  · exact gives_destroyAdmin hrings
  · exact gives_enableIdentified hrings

/-- The whole setup: nothing owned unless enabling succeeded. -/
theorem gives_setup (nvmeBase : Nat) (hx : x.own = []) :
    Gives h₀ x (nvmeControllerSetup nvmeBase) fun r y =>
      (r ≠ some 0 ∧ y.own = []) ∨ (r = some 0 ∧ ∃ (ctrl : Block Site) (recs dmas rings : _),
        ctrl.site = .ctrl ∧ Rings { x with own := [ctrl] } recs dmas rings y) := by
  unfold nvmeControllerSetup
  split
  · exact gives_ret (.inl ⟨by simp, hx⟩)
  refine (unlists_get _).pass fun cap => ?_
  split
  · exact gives_ret (.inl ⟨by simp, hx⟩)
  refine (gives_zalloc _ _).bind fun a y hy => ?_
  rcases hy with ⟨rfl, rfl⟩ | ⟨ctrl, rfl, h0, hsite, rfl⟩
  · rw [if_pos rfl]
    refine (unlists_warn _).pass fun _ => ?_
    exact gives_ret (.inl ⟨by simp, hx⟩)
  rw [if_neg h0]
  refine gives_modify_bind (y := { x with own := [ctrl], cqe := fun _ => 0, sqe := fun _ => 0 })
    (fun w h => ?_) ?_
  · exact { h with
      heap := by rw [← hx]; exact h.heap
      cqe := fun _ => rfl
      sqe := fun _ => rfl }
  refine gives_enable.bind fun rc z hz => ?_
  rcases hz with ⟨rfl, hown⟩ | ⟨rfl, recs, dmas, rings, hr⟩
  · rw [if_pos (by decide)]
    refine (gives_free_top (b := ctrl) hown h0).bind ?_
    rintro _ _ rfl
    exact gives_ret (.inl ⟨by simp, rfl⟩)
  · rw [if_neg (by decide)]
    exact gives_ret (.inr ⟨rfl, ctrl, recs, dmas, rings, hsite, { hr with }⟩)

/-! ### The heap after a setup -/

/-- The inventory of a world before the call. -/
def inventoryOf (w : World) : Inventory :=
  ⟨[], fun i => (w.q i).cq.cqe, fun i => (w.q i).sq.sqe, w.sys.nvmeDmaBuffer, accepted w.log⟩

theorem stock_inventoryOf (w : World) : Stock w.sys.heap (inventoryOf w) w :=
  ⟨⟨[], .refl _⟩, fun _ => rfl, fun _ => rfl, rfl, rfl⟩

/-- The blocks allocated since `w` and live in `v` are exactly the controller record, the four rings,
    the bounce page if it was allocated since, and a record for each namespace accepted since. -/
def OwnsExactly (w v : World) : Prop :=
  ∃ (own recs dmas rings : List (Block Site)) (ctrl : Block Site),
    v.sys.heap.live = own ++ w.sys.heap.live ∧ own.Perm (recs ++ dmas ++ rings ++ [ctrl]) ∧
    ctrl.site = .ctrl ∧
    rings.map (·.site) = [.sqRing .io, .cqRing .io, .sqRing .admin, .cqRing .admin] ∧
    (∀ b ∈ recs, b.site = .ns) ∧ accepted v.log = recs.map (·.addr) ++ accepted w.log ∧
    ((dmas = [] ∧ v.sys.nvmeDmaBuffer = w.sys.nvmeDmaBuffer) ∨
      ∃ b : Block Site, dmas = [b] ∧ b.site = .dma ∧ w.sys.nvmeDmaBuffer = 0 ∧
        v.sys.nvmeDmaBuffer = b.addr)

/-- No setup ends abnormally. -/
theorem setup_no_halt {w v : World} {nvmeBase : Nat} {x : Halt} :
    ¬ Steps Hostile w (nvmeControllerSetup nvmeBase) v (.halt x) := fun h =>
  ((gives_setup nvmeBase rfl).wp (stock_inventoryOf w) v _ h).2

/-- CORRECT: whatever the device does and whichever allocations fail, a setup that did not enable the
    controller has freed each block it allocated exactly once; one that did has freed each Identify
    buffer exactly once and owns exactly what the driver goes on using. Nothing is freed twice. -/
theorem setup_heap {w v : World} {nvmeBase : Nat} {r : Option Int}
    (hrun : Steps Hostile w (nvmeControllerSetup nvmeBase) v (.ret r)) :
    v.sys.heap.bad = w.sys.heap.bad ∧ (newFrees w.sys.heap v.sys.heap).Nodup ∧
      (r ≠ some 0 → v.sys.heap.live = w.sys.heap.live ∧
        ∀ b ∈ newBlocks w.sys.heap v.sys.heap, (newFrees w.sys.heap v.sys.heap).count b.serial = 1) ∧
      (r = some 0 → OwnsExactly w v ∧ ∀ b ∈ newBlocks w.sys.heap v.sys.heap, b.site = .identify →
        (newFrees w.sys.heap v.sys.heap).count b.serial = 1) := by
  obtain ⟨y, hΦ, hy⟩ := (gives_setup nvmeBase rfl w (stock_inventoryOf w) v _ hrun).2
  obtain ⟨dead, hs⟩ := hy.heap
  refine ⟨hs.bad, hs.newFrees_nodup, fun hr => ?_, fun hr => ?_⟩
  · rcases hΦ with ⟨_, hown⟩ | ⟨h0, _⟩
    · refine ⟨by rw [hs.live, hown, List.nil_append], fun b hb => hs.freed_once hb ?_⟩
      rw [hown]
      exact List.not_mem_nil
    · exact absurd h0 hr
  · rcases hΦ with ⟨h0, _⟩ | ⟨_, ctrl, recs, dmas, rings, hctrl, hrings⟩
    · exact absurd hr h0
    obtain ⟨new, hown, hperm⟩ := hrings.own
    refine ⟨⟨y.own, recs, dmas, rings, ctrl, hs.live, ?_, hctrl, hrings.sites, hrings.recSite,
      hy.recs.trans hrings.recs, ?_⟩, fun b hb hsite => hs.freed_once hb fun hmem => ?_⟩
    · rw [hown]
      exact (hperm.append_right rings).append_right [ctrl]
    · rcases hrings.dma with ⟨h, hd⟩ | ⟨b, h, hb, hx, hd, _⟩
      · exact .inl ⟨h, hy.dma.trans hd⟩
      · exact .inr ⟨b, h, hb, hx, hy.dma.trans hd⟩
    · -- no owned block is an Identify buffer
      rw [hown, List.append_assoc] at hmem
      rcases List.mem_append.mp hmem with hm | hm
      · rcases List.mem_append.mp (hperm.mem_iff.mp hm) with hm | hm
        · rw [hrings.recSite b hm] at hsite
          cases hsite
        · rcases hrings.dma with ⟨rfl, _⟩ | ⟨c, rfl, hc, _⟩
          · cases hm
          · rw [List.mem_singleton.mp hm, hc] at hsite
            cases hsite
      · rcases List.mem_append.mp hm with hm | hm
        · have := List.mem_map_of_mem (f := (·.site)) hm
          rw [hrings.sites, hsite] at this
          simp at this
        · rw [List.mem_singleton.mp hm, hctrl] at hsite
          cases hsite

/-- Before any setup, with the places of the allocations to come. -/
def bareWorld (cap : Nat) (place : Nat → Option Nat) : World where
  store := ⟨fun _ => 0, fun _ => 0⟩
  q _ := ⟨⟨⟨0, 0⟩, 0, 0, 0⟩, ⟨⟨0, 0⟩, 0, 0, false⟩, fun _ => zeroSqe, fun _ => zeroCqe,
    ⟨0, 0, 0, 0, 0, [], []⟩⟩
  sys := ⟨0, 0, fun _ => ⟨0, 0, 0, 0, 0⟩, 0, 0, 0,
    ⟨place, 0, [], [], [], [], List.nodup_nil, List.forall_mem_nil _⟩⟩
  reg := ⟨cap, 0, 0, 0, 0, 0⟩
  dev := ⟨1, 512, 1000, fun _ _ _ => 0⟩
  log := []
  used := []

/-- Where the sample puts its `n`-th allocation. -/
def sampleBlock (n : Nat) : Nat := 0x10000 * (n + 1)

def driverActs (n : Nat) : List (Option DeviceAct) := List.replicate n none

/-- A device with one namespace of 8 blocks of 512 bytes that answers every command. -/
def setupScript : List (Option DeviceAct) := List.flatten [
  driverActs 20, [some (.csts 1)], driverActs 6,
  [some (.poke (sampleBlock 3 + 516) 1), some (.complete 0)], driverActs 16, [some (.complete 0)],
  driverActs 12, [some (.complete 0)], driverActs 7,
  [some (.poke (sampleBlock 6) 8), some (.poke (sampleBlock 6 + 130) 9), some (.complete 0)],
  driverActs 20]

def sampleStart : World := bareWorld (nvmeCapCssNvme + 0x1000000 + 255) fun n => some (sampleBlock n)

def sampleSetup : World × Drv (Option Int) :=
  follow deviceAct setupScript sampleStart (nvmeControllerSetup 1)

set_option maxRecDepth 20000 in
/-- One namespace is accepted; the live blocks are its record, the bounce page, four rings and the
    controller record. -/
theorem setup_heap_sample : sampleSetup.1.sys.heap.bad = sampleStart.sys.heap.bad ∧
    (newFrees sampleStart.sys.heap sampleSetup.1.sys.heap).Nodup ∧
    sampleSetup.1.sys.heap.live.map (·.site) =
      [.ns, .dma, .sqRing .io, .cqRing .io, .sqRing .admin, .cqRing .admin, .ctrl] := by
  have hret : sampleSetup.2.value? = some (some 0) := by decide +kernel
  have hrun : Steps Hostile sampleStart (nvmeControllerSetup 1) sampleSetup.1 (.ret (some 0)) :=
    follow_ret hret fun _ _ => deviceAct_hostile
  have h := setup_heap hrun
  exact ⟨h.1, h.2.1, by decide +kernel⟩

end Nvme
