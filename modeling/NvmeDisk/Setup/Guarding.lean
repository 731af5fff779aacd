import NvmeDisk.Setup.Holdings

/-! The functions of the set-up, as long as nothing fails: what the controller holds stays live, and
    nothing of it is freed. -/

namespace Nvme
open Bytes BlockDev Resume Mheap

variable {a : Nat} {lg : List Event} {w v : World} {H bs : List Nat} {α : Type}

/-! ### The code, as long as nothing fails -/

/-- Begun with the holdings `H` and the blocks `bs`, the code ends as `Φ` says. -/
abbrev Guards (lg : List Event) (H bs : List Nat) (p : Drv α) (Φ : α → World → Prop) : Prop :=
  ∀ w, Kept lg H bs w → Wp Hostile (fun _ => True) p Φ (fun _ _ => True) w

variable {β : Type} {Φ : α → World → Prop} {Ψ : β → World → Prop} {p : Drv α} {k : α → Drv β}

theorem guards_ret {a : α} (h : ∀ v, Kept lg H bs v → Φ a v) : Guards lg H bs (.ret a) Φ :=
  fun _ hw => wp_ret fun v he => ⟨trivial, h v ((kept_stable lg H bs).env hw he)⟩

theorem Guards.bind (hp : Guards lg H bs p Φ) (hk : ∀ a w, Φ a w →
    Wp Hostile (fun _ => True) (k a) Ψ (fun _ _ => True) w) : Guards lg H bs (p >>= k) Ψ :=
  fun _ hw => wp_seq (hp _ hw) (fun _ _ h => h) hk

theorem guards_idle (hp : p.Does Idler) : Guards lg H bs p fun _ => Kept lg H bs := fun _ hw =>
  wp_mono (wp_keeps (kept_stable lg H bs) (hp.keeps fun _ _ hr h => h.idler hr) hw)
    (fun _ _ => trivial) (fun _ _ _ h => h) fun _ _ _ _ => trivial

/-- Code of idle actions may come first. -/
theorem Guards.pass (hp : p.Does Idler) (hk : ∀ a, Guards lg H bs (k a) Ψ) :
    Guards lg H bs (p >>= k) Ψ := (guards_idle hp).bind fun a _ h => hk a _ h

theorem idles_get (g : World → α) : (Prog.get g : Drv α).Does Idler := .get .refl g

theorem idler_use (w : World) (x : Used) : Idler w (w.use x) := ⟨rfl, fun _ => rfl, fun _ => rfl, .inl rfl⟩

theorem idles_getUsed (f : Nat → Used) (g : World → Nat) : (getUsed f g).Does Idler :=
  .act fun w => idler_use w _

theorem idles_warn (c : Warn) : (warn c).Does Idler :=
  .modify fun _ => ⟨rfl, fun _ => rfl, fun _ => rfl, .inr ⟨.warn c, rfl, rfl, fun _ => rfl⟩⟩

theorem idles_wait (j : QId) : (nvmeWait j).Does Idler := (does_wait j).mono fun _ _ => OnQueue.idler

theorem idles_setNs (rec : Nat) (ns : NvmeNamespace) :
    (Prog.modify (·.setNs rec ns) : Drv Unit).Does Idler :=
  .modify fun _ => ⟨rfl, fun _ => rfl, fun _ => rfl, .inl rfl⟩

/-- A block was found that is no ring, or there is none. -/
def Got (lg : List Event) (H bs : List Nat) (a : Nat) (w : World) : Prop :=
  (a = 0 ∧ Kept lg H bs w) ∨ (a ≠ 0 ∧ Kept lg H (a :: bs) w)

/-- A ring was found, or there is none. -/
def GotRing (lg : List Event) (H bs : List Nat) (a : Nat) (w : World) : Prop :=
  (a = 0 ∧ Kept lg H bs w) ∨ (a ≠ 0 ∧ Kept lg (a :: H) bs w)

theorem guards_act {align size : Nat} {site : Site} {g : World → Nat × World}
    {Φ : Nat → World → Prop} (hg : ∀ w, (g w).1 = (w.sys.heap.alloc align size site).1 ∧
      Idler (w.setHeap (w.sys.heap.alloc align size site).2) (g w).2)
    (hnone : ∀ w, Kept lg H bs w → Φ 0 w)
    (hsome : ∀ w a, Kept lg H bs w → a ≠ 0 → a < 4294967296 → a ∉ bs →
      (∃ b ∈ w.sys.heap.live, b.addr = a ∧ b.site = site) → Φ a w)
    (hΦ : ∀ a, Stable Hostile (Φ a)) : Guards lg H bs (.act g) Φ := by
  refine fun w hw => wp_atom_stable (kept_stable lg H bs) hw (fun _ _ => trivial) fun v hv => ?_
  obtain ⟨ha, hidle⟩ := hg v
  obtain ⟨hkept, hnew⟩ := hv.alloc align size site
  have hkept' := hkept.idler hidle
  refine wp_ret fun u hu => ⟨trivial, (hΦ _).env ?_ hu⟩
  by_cases h0 : (v.sys.heap.alloc align size site).1 = 0
  · rw [ha, h0]
    exact hnone _ hkept'
  · obtain ⟨hsmall, hlive, hnot⟩ := hnew.resolve_left h0
    rw [ha]
    refine hsome _ _ hkept' h0 hsmall hnot ?_
    rw [hidle.heap]
    exact hlive

theorem got_stable (lg : List Event) (H bs : List Nat) (a : Nat) : Stable Hostile (Got lg H bs a) := by
  rintro w v (⟨h0, h⟩ | ⟨h0, h⟩) hr
  · exact .inl ⟨h0, kept_stable lg H bs w v h hr⟩
  · exact .inr ⟨h0, kept_stable lg H (a :: bs) w v h hr⟩

theorem gotRing_stable (lg : List Event) (H bs : List Nat) (a : Nat) :
    Stable Hostile (GotRing lg H bs a) := by
  rintro w v (⟨h0, h⟩ | ⟨h0, h⟩) hr
  · exact .inl ⟨h0, kept_stable lg H bs w v h hr⟩
  · exact .inr ⟨h0, kept_stable lg (a :: H) bs w v h hr⟩

theorem idler_zalloc (w : World) (x : Used) (a : Nat) (m : Mem) :
    Idler w (if a = 0 then w.use x else (w.use x).setMem m) := by
  split
  · exact idler_use w x
  · exact ⟨rfl, fun _ => rfl, fun _ => rfl, .inl rfl⟩

theorem Kept.got (h : Kept lg H bs w) {a : Nat} {site : Site} (h0 : a ≠ 0) (hnot : a ∉ bs)
    (hsite : site.isRing = false) (hlive : ∃ b ∈ w.sys.heap.live, b.addr = a ∧ b.site = site) :
    Got lg H bs a w := by
  obtain ⟨b, hb, hba, hbs⟩ := hlive
  exact .inr ⟨h0, { h with
    others := List.forall_mem_cons.mpr ⟨⟨b, hb, hba, by rw [hbs]; exact hsite⟩, h.others⟩
    nodup := List.nodup_cons.mpr ⟨hnot, h.nodup⟩ }⟩

theorem guards_zalloc {site : Site} (hsite : site.isRing = false) (size : Nat) :
    Guards lg H bs (zallocPageAligned site size) (Got lg H bs) :=
  guards_act (fun _ => ⟨rfl, idler_zalloc ..⟩) (fun _ h => .inl ⟨rfl, h⟩)
    (fun _ _ h h0 _ hnot hlive => h.got h0 hnot hsite hlive) (got_stable lg H bs)

theorem guards_malloc {site : Site} (hsite : site.isRing = false) (size : Nat) :
    Guards lg H bs (malloc site size) (Got lg H bs) :=
  guards_act (fun _ => ⟨rfl, idler_use ..⟩) (fun _ h => .inl ⟨rfl, h⟩)
    (fun _ _ h h0 _ hnot hlive => h.got h0 hnot hsite hlive) (got_stable lg H bs)

theorem guards_ring {site : Site} (hsite : site.isRing = true) (size : Nat) :
    Guards lg H bs (zallocPageAligned site size) (GotRing lg H bs) := by
  refine guards_act (fun _ => ⟨rfl, idler_zalloc ..⟩) (fun _ h => .inl ⟨rfl, h⟩)
    (fun w a h h0 hsmall _ hlive => .inr ⟨h0, ?_⟩) (gotRing_stable lg H bs)
  obtain ⟨b, hb, hba, hbs⟩ := hlive
  exact { h with
    rings := List.forall_mem_cons.mpr ⟨⟨b, hb, hba, by rw [hbs]; exact hsite⟩, h.rings⟩
    small := List.forall_mem_cons.mpr ⟨hsmall, h.small⟩
    sqe := fun i hi => List.mem_cons_of_mem _ (h.sqe i hi)
    cqe := fun i hi => List.mem_cons_of_mem _ (h.cqe i hi)
    log := by
      obtain ⟨evs, hevs, hsafe, hheld⟩ := h.log
      exact ⟨evs, hevs, hsafe, fun x hx hh => List.mem_cons_of_mem _ (hheld x hx hh)⟩ }

theorem guards_free : Guards lg H (a :: bs) (free a) fun _ => Kept lg H bs := fun _ hw =>
  wp_atom_stable (kept_stable lg H (a :: bs)) hw (fun _ _ => trivial) fun _ hv =>
    wp_ret fun _ he => ⟨trivial, (kept_stable lg H bs).env hv.free he⟩

/-- An Identify command is handed no ring; it frees its buffer unless it returns it. -/
theorem guards_identify (cns nsid : Nat) :
    Guards lg H bs (nvmeAdminIdentify cns nsid) (Got lg H bs) := by
  refine (guards_zalloc rfl _).bind ?_
  rintro id w (⟨rfl, hw⟩ | ⟨h0, hw⟩)
  · rw [if_pos rfl]
    exact (Guards.pass (idles_warn _) fun _ => guards_ret fun _ h => .inl ⟨rfl, h⟩) w hw
  · rw [if_neg h0]
    have hfree : Guards lg H (id :: bs) (do free id; return 0) (Got lg H bs) :=
      guards_free.bind fun _ v hv => guards_ret (fun _ h => .inl ⟨rfl, h⟩) v hv
    refine wp_adminSubmit (fun _ _ h => h) (kept_stable lg H (id :: bs))
      (fun _ _ ho h => h.idler ho.idler) (by decide) (fun slot => rfl)
      (fun v hv => (Guards.pass (idles_warn _) fun _ => hfree) v hv)
      (fun v slot e tail hv hopc _ _ => ?_) hw
    have hcommit : Kept lg H (id :: bs) (v.note (.commit .admin slot e tail)) := by
      refine hv.event rfl (fun _ => rfl) (fun _ => rfl) rfl rfl fun x _ hh => ?_
      rw [Event.hands, NvmeSqe.creates, hopc] at hh
      cases hh
    refine Guards.pass (idles_wait .admin) (fun c => ?_) _ hcommit
    split
    · exact guards_ret fun _ h => .inr ⟨h0, h⟩
    · exact hfree

theorem guards_ensureDma : Guards lg H bs ensureDmaBuffer fun _ => Kept lg H bs := by
  refine Guards.pass (idles_get _) fun dma => ?_
  split
  · exact guards_ret fun _ h => h
  · refine (guards_zalloc rfl _).bind fun a w hw => ?_
    have hkept : Kept lg H bs w := by
      rcases hw with ⟨_, h⟩ | ⟨_, h⟩
      · exact h
      · exact h.forget
    refine (show Guards lg H bs _ _ from ?_) w hkept
    refine Guards.pass (.modify fun _ => ⟨rfl, fun _ => rfl, fun _ => rfl, .inl rfl⟩) fun _ => ?_
    split
    · exact Guards.pass (idles_warn _) fun _ => guards_ret fun _ h => h
    · exact guards_ret fun _ h => h

theorem idles_idNs {γ : Type} (id : Nat) (field : NvmeIdentifyNs → γ) : (idNs id field).Does Idler :=
  idles_get _

theorem guards_recordNs (id nsId mdts currentLbaFormat : Nat) :
    Guards lg H bs (recordNs id nsId mdts currentLbaFormat) fun _ => Kept lg H bs := by
  refine (guards_malloc rfl _).bind fun a w hw => ?_
  have hns : (Prog.modify fun w : World => w.setSys { w.sys with ns := a } : Drv Unit).Does Idler :=
    .modify fun _ => ⟨rfl, fun _ => rfl, fun _ => rfl, .inl rfl⟩
  rcases hw with ⟨rfl, hw⟩ | ⟨h0, hw⟩
  · refine Guards.pass hns (fun _ => ?_) w hw
    rw [if_pos rfl]
    exact guards_idle (idles_warn _)
  · refine Guards.pass hns (fun _ => ?_) w hw
    rw [if_neg h0]
    refine Guards.pass (idles_idNs _ _) fun lbaCount => ?_
    refine Guards.pass (idles_getUsed _ _) fun lbads => ?_
    refine Guards.pass (idles_getUsed _ _) fun ms => ?_
    dsimp only
    split
    · refine Guards.pass (idles_setNs _ _) fun _ => ?_
      exact Guards.pass (idles_warn _) fun _ => guards_free
    · refine fun v hv => wp_mono (guards_idle (.modify fun u => ?_) v hv.forget) (fun _ h => h)
        (fun _ _ _ h => h) fun _ _ _ h => h
      exact ⟨rfl, fun _ => rfl, fun _ => rfl, .inr ⟨_, rfl, rfl, fun _ => rfl⟩⟩

theorem guards_probeIdentified (id nsId mdts : Nat) :
    Guards lg H bs (probeIdentified id nsId mdts) fun _ => Kept lg H bs := by
  refine Guards.pass (idles_idNs _ _) fun fmt => ?_
  refine Guards.pass (idles_idNs _ _) fun nlbaf => ?_
  split
  · exact guards_ret fun _ h => h
  · refine Guards.pass (idles_idNs _ _) fun nsze => ?_
    split
    · exact guards_ret fun _ h => h
    · refine guards_ensureDma.bind fun dma w hw => ?_
      split
      · refine (show Guards lg H bs _ _ from ?_) w hw
        exact guards_ret fun _ h => h
      · exact guards_recordNs _ _ _ _ w hw

theorem guards_probeNs (nsIdx mdts : Nat) :
    Guards lg H bs (nvmeProbeNs nsIdx mdts) fun _ => Kept lg H bs := by
  refine (guards_identify _ _).bind ?_
  rintro id w (⟨rfl, hw⟩ | ⟨h0, hw⟩)
  · rw [if_pos rfl]
    refine (show Guards lg H bs _ _ from ?_) w hw
    exact guards_ret fun _ h => h
  · rw [if_neg h0]
    exact (guards_probeIdentified _ _ _).bind (fun _ v hv => guards_free v hv) w hw

theorem guards_probeLoop (mdts : Nat) : ∀ n nsIdx,
    Guards lg H bs (probeLoop mdts n nsIdx) fun _ => Kept lg H bs
  | 0, _ => guards_ret fun _ h => h
  | n + 1, nsIdx =>
    (guards_probeNs nsIdx mdts).bind fun _ w hw => guards_probeLoop mdts n (nsIdx + 1) w hw

/-! ### Rings -/

/-- The ring pointers change to null or to rings of `H`. -/
theorem Kept.setQ (h : Kept lg H bs w) (i : QId) {q : QPair}
    (hs : q.sq.sqe ≠ 0 → q.sq.sqe ∈ H) (hc : q.cq.cqe ≠ 0 → q.cq.cqe ∈ H) :
    Kept lg H bs (w.setQ i q) :=
  { h with
    sqe := fun j hj => by
      by_cases hij : j = i
      · rw [hij, World.setQ_q_same] at hj ⊢
        exact hs hj
      · rw [World.setQ_q_ne _ _ hij] at hj ⊢
        exact h.sqe j hj
    cqe := fun j hj => by
      by_cases hij : j = i
      · rw [hij, World.setQ_q_same] at hj ⊢
        exact hc hj
      · rw [World.setQ_q_ne _ _ hij] at hj ⊢
        exact h.cqe j hj }

/-- Nothing the controller held was freed, whatever rings are live. -/
def Safe (lg : List Event) (w : World) : Prop := ∃ H, Kept lg H [] w

theorem safe_stable (lg : List Event) : Stable Hostile (Safe lg) := fun _ _ ⟨H, h⟩ hr =>
  ⟨H, kept_stable lg H [] _ _ h hr⟩

/-- A ring is allocated and recorded by `setRing` and `init`, which sees to `L`; or the result is not 0. -/
theorem guards_initRing {site : Site} {size : Nat} {common : World → World}
    {setRing init : Nat → World → World} {L : World → Prop} (hsite : site.isRing = true)
    (hcommon : ∀ H w, Kept lg H [] w → Kept lg H [] (common w))
    (hset : ∀ H a w, (a ≠ 0 → a ∈ H) → Kept lg H [] w → Kept lg H [] (setRing a w))
    (hinit : ∀ H a w, (a ≠ 0 → a ∈ H) → Kept lg H [] w → Kept lg H [] (init a w))
    (hlive : ∀ a w, a ≠ 0 → L (init a w)) (hL : Stable Hostile L) (hw : Safe lg w) :
    Wp Hostile (fun _ => True) (do
      Prog.modify common
      let a ← zallocPageAligned site size
      Prog.modify (setRing a)
      if a = 0 then
        warn .noalloc
        return -1
      else
        Prog.modify (init a)
        return 0) (fun (rc : Int) v => rc = 0 → Safe lg v ∧ L v) (fun _ _ => True) w := by
  obtain ⟨H, hw⟩ := hw
  refine wp_modify_bind fun v hv => ⟨trivial, ?_⟩
  have hv' := hcommon H v ((kept_stable lg H []).env hw hv)
  refine wp_seq (guards_ring hsite size _ hv') (fun _ _ h => h) fun a u hu => ?_
  refine wp_modify_bind fun x hx => ⟨trivial, ?_⟩
  have hx' := (gotRing_stable lg H [] a).env hu hx
  rcases hx' with ⟨rfl, _⟩ | ⟨h0, hx'⟩
  · rw [if_pos rfl]
    exact wp_modify_bind fun y _ => ⟨trivial, wp_ret fun z _ => ⟨trivial, fun h => by cases h⟩⟩
  · rw [if_neg h0]
    have hring := hset (a :: H) a x (fun _ => List.mem_cons_self ..) hx'
    refine wp_modify_bind fun y hy => ⟨trivial, wp_ret fun z hz => ⟨trivial, fun _ => ?_⟩⟩
    have hy' := hinit (a :: H) a y (fun _ => List.mem_cons_self ..)
      ((kept_stable lg (a :: H) []).env hring hy)
    exact ⟨⟨a :: H, (kept_stable lg (a :: H) []).env hy' hz⟩, hL.env (hlive a y h0) hz⟩

theorem guards_initSq (i : QId) (qIdx length : Nat) (hw : Safe lg w) :
    Wp Hostile (fun _ => True) (nvmeInitSq i qIdx length)
      (fun rc v => rc = 0 → Safe lg v ∧ (v.q i).sq.sqe ≠ 0) (fun _ _ => True) w := by
  refine guards_initRing (L := fun v => (v.q i).sq.sqe ≠ 0) rfl
    (fun H w h => h.setQ i (h.sqe i) (h.cqe i)) (fun H a w ha h => h.setQ i ha (h.cqe i))
    (fun H a w ha h => h.setQ i ha (h.cqe i)) (fun a w h0 => ?_) (fun _ _ h hr => ?_) hw
  · rw [World.setQ_q_same]
    exact h0
  · change (World.q _ i).sq.sqe ≠ 0
    rw [hr.sq]
    exact h

theorem guards_initCq (i : QId) (qIdx length : Nat) (hw : Safe lg w) :
    Wp Hostile (fun _ => True) (nvmeInitCq i qIdx length) (fun rc v => rc = 0 → Safe lg v)
      (fun _ _ => True) w :=
  wp_mono (guards_initRing (L := fun _ => True) rfl (fun _ _ h => h.setQ i (h.sqe i) (h.cqe i))
    (fun _ _ _ ha h => h.setQ i (h.sqe i) ha) (fun _ _ _ ha h => h.setQ i (h.sqe i) ha)
    (fun _ _ _ => trivial) (fun _ _ h _ => h) hw) (fun _ h => h) (fun _ _ _ h hrc => (h hrc).1)
    fun _ _ _ h => h

/-- Code that ends with -1. -/
theorem wp_fails {p : Drv α} {P : World → Prop} :
    Wp Hostile (fun _ => True) (do let _ ← p; return (-1 : Int)) (fun rc v => rc = 0 → P v)
      (fun _ _ => True) w := by
  refine wp_seq (Q := fun _ _ => True) (X := fun _ _ => True) (fun v q _ => ⟨trivial, ?_⟩)
    (fun _ _ h => h) fun _ _ _ => wp_ret fun _ _ => ⟨trivial, fun h => by cases h⟩
  cases q <;> trivial

/-- A create command hands over its ring. -/
theorem guards_create {opc a nsid dword10 dword11 dword12 : Nat} {destroy : Drv Unit}
    (hopc : opc < 256) (ha : a ≠ 0 → a ∈ H) (hw : Kept lg H [] w) :
    Wp Hostile (fun _ => True) (do
      match ← getNextSqe .admin opc 0 a 0 with
      | none =>
        destroy
        return -1
      | some slot =>
        fillIn .admin (some slot) nsid dword10 dword11 dword12
        commitSqe .admin
        let cqe ← nvmeWait .admin
        if nvmeIsCqeSuccess cqe then return 0
        else
          destroy
          return -1) (fun (rc : Int) v => rc = 0 → Safe lg v) (fun _ _ => True) w := by
  refine wp_adminSubmit (fun _ _ h => h) (kept_stable lg H []) (fun _ _ ho h => h.idler ho.idler) hopc
    (fun slot => rfl) (fun v _ => wp_fails) (fun v slot e tail hv _ hprp _ => ?_) hw
  have hcommit : Kept lg H [] (v.note (.commit .admin slot e tail)) := by
    refine hv.event rfl (fun _ => rfl) (fun _ => rfl) rfl rfl fun x hx hh => ?_
    have hxa : e.dptrPrp1 = x := by simpa using (Bool.and_eq_true_iff.mp hh).2
    -- the ring's address fits the 32 bits of PRP1
    by_cases h0 : a = 0
    · rw [hprp, h0] at hxa
      exact absurd hxa.symm hx
    · rw [hprp, u32, Nat.mod_eq_of_lt (hv.small a (ha h0))] at hxa
      rw [← hxa]
      exact ha h0
  refine wp_seq (guards_idle (idles_wait .admin) _ hcommit) (fun _ _ h => h) fun c u hu => ?_
  split
  · exact wp_ret fun z hz => ⟨trivial, fun _ => ⟨H, (kept_stable lg H []).env hu hz⟩⟩
  · exact wp_fails

theorem guards_createIoCq (qIdx : Nat) (hw : Safe lg w) :
    Wp Hostile (fun _ => True) (nvmeCreateIoCq qIdx) (fun rc v => rc = 0 → Safe lg v)
      (fun _ _ => True) w := by
  refine wp_get_bind fun v hv => ⟨trivial, ?_⟩
  refine wp_seq (guards_initCq .io qIdx _ ((safe_stable lg).env hw hv)) (fun _ _ h => h)
    fun rc u hu => ?_
  split
  · exact wp_ret fun _ _ => ⟨trivial, fun h => by cases h⟩
  · rename_i hrc
    obtain ⟨H, hu⟩ := hu (not_not.mp hrc)
    refine wp_get_bind fun x hx => ⟨trivial, ?_⟩
    have hx' := (kept_stable lg H []).env hu hx
    exact guards_create (by decide) (hx'.cqe .io) hx'

theorem guards_createIoSq (qIdx : Nat) (hw : Safe lg w) :
    Wp Hostile (fun _ => True) (nvmeCreateIoSq qIdx) (fun rc v => rc = 0 → Safe lg v)
      (fun _ _ => True) w := by
  refine wp_get_bind fun v hv => ⟨trivial, ?_⟩
  refine wp_seq (guards_initSq .io qIdx _ ((safe_stable lg).env hw hv)) (fun _ _ h => h)
    fun rc u hu => ?_
  split
  · exact wp_ret fun _ _ => ⟨trivial, fun h => by cases h⟩
  · rename_i hrc
    obtain ⟨⟨H, hu⟩, _⟩ := hu (not_not.mp hrc)
    refine wp_get_bind fun x hx => ⟨trivial, ?_⟩
    have hx' := (kept_stable lg H []).env hu hx
    exact guards_create (by decide) (hx'.sqe .io) hx'

theorem guards_createIoQueues (hw : Safe lg w) :
    Wp Hostile (fun _ => True) nvmeCreateIoQueues (fun rc v => rc = 0 → Safe lg v)
      (fun _ _ => True) w := by
  refine wp_seq (guards_createIoCq 3 hw) (fun _ _ h => h) fun rc v hv => ?_
  split
  · exact wp_ret fun _ _ => ⟨trivial, fun h => by cases h⟩
  · rename_i hrc
    refine wp_seq (guards_createIoSq 2 (hv (not_not.mp hrc))) (fun _ _ h => h) fun rc u hu => ?_
    split
    · exact wp_fails
    · rename_i hrc
      exact wp_ret fun z hz => ⟨trivial, fun _ => (safe_stable lg).env (hu (not_not.mp hrc)) hz⟩

end Nvme
