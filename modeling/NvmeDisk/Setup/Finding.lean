import NvmeDisk.Setup.Joining
import NvmeDisk.Setup.Selected

/-! The set-up from power-on, to its end. What it reads of the controller and of the namespaces is what
    the device answers to Identify; the record the global `ns` ends up with is one of these answers. A
    probe that times out costs the namespaces after it, not the pairs. -/

namespace Nvme
open Ring Resume Bytes BlockDev Mheap

/-! ### What the device says of itself -/

def Device.ctrl (d : Device) : NvmeIdentifyCtrl :=
  identifyCtrlAt (d.identify nvmeAdminIdentifyCnsIdCtrl 0) 0

def Device.nsData (d : Device) (nsid : Nat) : NvmeIdentifyNs :=
  identifyNsAt (d.identify nvmeAdminIdentifyCnsIdNs nsid) 0

/-- No active namespace has blocks larger than a page. -/
def Device.Fitting (d : Device) : Prop :=
  ∀ nsid, (d.nsData nsid).Formatted → (d.nsData nsid).blockSize ≤ nvmePageSize

variable {mayFail : Nat → Bool} {w v u : World} {b : RingBase} {p : QPair} {mdts : Nat}

theorem load_lt (m : Mem) : ∀ n a : Nat, load m a n < 256 ^ n
  | 0, _ => by simp [load]
  | n + 1, a => by
    have hrest := load_lt m n (a + 1)
    have hbyte : (m a).toNat < 256 := (m a).toNat_lt
    rw [load, Nat.pow_succ']
    omega

theorem load_moved {m m' : Mem} {a c : Nat} : ∀ (n o : Nat), (∀ k < n, m (a + (o + k)) = m' (c + (o + k))) →
    load m (a + o) n = load m' (c + o) n
  | 0, _, _ => rfl
  | n + 1, o, h => by
    have hrest : load m (a + (o + 1)) n = load m' (c + (o + 1)) n := by
      refine load_moved n (o + 1) fun k hk => ?_
      have := h (k + 1) (by omega)
      rwa [show o + (k + 1) = o + 1 + k by omega] at this
    have h0 : m (a + o) = m' (c + o) := h 0 (by omega)
    rw [load, load, h0, Nat.add_assoc, Nat.add_assoc, hrest]

/-- A page of data reads the same wherever it lies. -/
theorem load_page {m f : Mem} {id : Nat} (h : ∀ o < 4096, m (id + o) = f o) {n o : Nat}
    (hn : o + n ≤ 4096) : load m (id + o) n = load f (0 + o) n :=
  load_moved n o fun k hk => by rw [h _ (by omega), Nat.zero_add]

theorem ctrl_page {m f : Mem} {id : Nat} (h : ∀ o < 4096, m (id + o) = f o) :
    identifyCtrlAt m id = identifyCtrlAt f 0 := by
  rw [identifyCtrlAt, identifyCtrlAt, load_page h (by omega), load_page h (by omega)]

/-- What `nvme_probe_ns` makes of Identify data depends on the page alone. -/
theorem ns_page {m f : Mem} {id : Nat} (h : ∀ o < 4096, m (id + o) = f o) :
    let d := identifyNsAt m id
    let d' := identifyNsAt f 0
    (d.Formatted ↔ d'.Formatted) ∧ d.blockSize = d'.blockSize ∧
      ∀ nsId mdts, d.record nsId mdts = d'.record nsId mdts := by
  have hnsze : (identifyNsAt m id).nsze = (identifyNsAt f 0).nsze := load_page h (o := 0) (by omega)
  have hnlbaf : (identifyNsAt m id).nlbaf = (identifyNsAt f 0).nlbaf := load_page h (by omega)
  have hflbas : (identifyNsAt m id).flbas = (identifyNsAt f 0).flbas := load_page h (by omega)
  have hformat : (identifyNsAt m id).format = (identifyNsAt f 0).format := by
    rw [NvmeIdentifyNs.format, hflbas]
    rfl
  have hlt : (identifyNsAt f 0).format < 16 := Nat.lt_of_le_of_lt Nat.and_le_right (by decide)
  have hlbaf : ∀ k < 16, (identifyNsAt m id).lbaf k = (identifyNsAt f 0).lbaf k := by
    intro k hk
    simp only [identifyNsAt, Nat.add_assoc]
    rw [load_page h (n := 2) (by omega), load_page h (n := 1) (by omega)]
  have hsize : (identifyNsAt m id).blockSize = (identifyNsAt f 0).blockSize := by
    rw [NvmeIdentifyNs.blockSize, hformat, hlbaf _ hlt]
    rfl
  refine ⟨?_, hsize, fun nsId mdts => ?_⟩
  · constructor
    · rintro ⟨hr, hz⟩
      exact ⟨by rw [← hformat, ← hnlbaf]; exact hr, by rw [← hnsze]; exact hz⟩
    · rintro ⟨hr, hz⟩
      exact ⟨by rw [hformat, hnlbaf]; exact hr, by rw [hnsze]; exact hz⟩
  · rw [NvmeIdentifyNs.record, NvmeIdentifyNs.record, hnsze, hsize, hformat, hlbaf _ hlt]

/-! ### One namespace -/

/-- `ns` is null, or its record is what the device says of one of its namespaces. -/
def Names (d : Device) (mdts : Nat) (w : World) : Prop :=
  w.sys.ns ≠ 0 → ∃ nsid, (d.nsData nsid).Passes ∧
    w.sys.nsRec w.sys.ns = (d.nsData nsid).record nsid mdts

/-- An address as the allocator of `u` gives it for a page, or null. -/
def Paging (u : World) (a : Nat) : Prop := a % 4096 = 0 ∧ (u.Addressable → a < 4294967296)

/-- What holds between two iterations of the probe loop, begun in `u`. -/
structure Surveyed (b : RingBase) (p : QPair) (mdts : Nat) (u w : World) : Prop where
  lasting : Lasting b p w
  same : Preserved True u w
  page : Paging u w.sys.nvmeDmaBuffer
  names : u.Addressable → u.dev.Fitting → Names u.dev mdts u → Names u.dev mdts w

theorem lasting_stable : Stable (Powered mayFail) (Lasting b p) := by
  rintro w v (⟨D, h⟩ | ⟨hlate, h⟩) hr
  · exact .inl ⟨D, joined_stable w v h hr⟩
  · exact .inr ⟨logged_stable _ w v hlate hr, left_stable w v h hr⟩

/-- Whatever leaves the namespaces alone. -/
theorem Surveyed.unchanged (h : Surveyed b p mdts u w) (hl : Lasting b p v) (hs : Unchanged True w v) :
    Surveyed b p mdts u v where
  lasting := hl
  same := h.same.trans hs.toPreserved
  page := by rw [hs.dma]; exact h.page
  names hspace hfit hu := by
    rw [Names, hs.ns, hs.nsRec]
    exact h.names hspace hfit hu

theorem surveyed_stable : Stable (Powered mayFail) (Surveyed b p mdts u) := fun w v h hr =>
  h.unchanged (lasting_stable w v h.lasting hr) (hr.unchanged fun _ => hr.disk h.lasting.work)

theorem tended_zalloc (site : Site) (size : Nat) (w : World) :
    Tended w ((zallocPageAligned site size).exec w).2 := by
  obtain ⟨a, v, hexec, hv⟩ := exec_zalloc site size w
  rw [hexec]
  exact hv.toTended

/-- Actions that leave queues, registers and the bounce page alone. -/
def Written (w v : World) : Prop := Filed w v ∧ v.sys.nvmeDmaBuffer = w.sys.nvmeDmaBuffer

theorem Tended.written (h : Tended w v) : Written w v := ⟨h.filed, h.dma⟩

theorem written_note (ev : Event) : (note ev).Does Written := .modify fun w => (tended_note w ev).written

theorem written_free (a : Nat) : (free a).Does Written := .modify fun w => (tended_free a w).written

theorem written_get {α : Type} (g : World → α) : (Prog.get g : Drv α).Does Written :=
  .get (fun _ => ⟨⟨⟨rfl, rfl, fun _ => rfl, .quiet rfl, fun _ => rfl⟩, rfl, rfl, rfl⟩, rfl⟩) g

theorem written_getUsed (f : Nat → Used) (g : World → Nat) : (getUsed f g).Does Written :=
  .act fun w => (tended_use w _).written

theorem written_setNs (rec : Nat) (ns : NvmeNamespace) :
    (Prog.modify (·.setNs rec ns) : Drv Unit).Does Written :=
  .modify fun _ => ⟨⟨⟨rfl, rfl, fun _ => rfl, .quiet rfl, fun _ => rfl⟩, rfl, rfl, rfl⟩, rfl⟩

theorem written_recordNs (id nsId mdts fmt : Nat) : (recordNs id nsId mdts fmt).Does Written := by
  refine .bind (.act fun _ => ?_) fun rec => .bind (.modify fun _ => ?_) fun _ => ?_
  · exact ⟨⟨⟨rfl, rfl, Heap.alloc_oracle _ _ _ _, .quiet rfl, fun _ => rfl⟩, rfl, rfl, rfl⟩, rfl⟩
  · exact ⟨⟨⟨rfl, rfl, fun _ => rfl, .quiet rfl, fun _ => rfl⟩, rfl, rfl, rfl⟩, rfl⟩
  split
  · exact written_note _
  refine .bind (written_get _) fun _ => .bind (written_getUsed _ _) fun _ => ?_
  refine .bind (written_getUsed _ _) fun _ => ?_
  dsimp only
  split
  · exact .bind (written_setNs _ _) fun _ => .bind (written_note _) fun _ => written_free _
  · exact .modify fun _ => ⟨⟨⟨rfl, rfl, fun _ => rfl, .note rfl, fun _ => rfl⟩, rfl, rfl, rfl⟩, rfl⟩

theorem alloc_paging (h : Preserved True u w) (size : Nat) (site : Site) :
    Paging u (w.sys.heap.alloc nvmePageSize size site).1 := by
  obtain ⟨a, v, hexec, hv⟩ := exec_zalloc site size w
  have ha : (w.sys.heap.alloc nvmePageSize size site).1 = a := Except.ok.inj (congrArg Prod.fst hexec)
  rw [ha]
  exact ⟨hv.page, fun hspace => hv.low fun n c hc => hspace n c (by rw [← h.oracle]; exact hc)⟩

/-- The rest of an iteration keeps what allows filing and a bounce page. -/
theorem acts_rest {P : World → Prop} (hsame : ∀ w, P w → Preserved True u w)
    (hfiled : ∀ w v, P w → Filed w v → Paging u v.sys.nvmeDmaBuffer → P v)
    (hpage : ∀ w, P w → Paging u w.sys.nvmeDmaBuffer) (id nsId mdts : Nat) :
    (do probeIdentified id nsId mdts; free id : Drv Unit).Acts P (fun _ _ => True) fun _ => True := by
  have hkeep : ∀ {α : Type} {q : Drv α}, q.Does Written →
      q.Acts P (fun _ _ => True) fun _ => True := fun hq => .of_does hq fun w v hv hw =>
    ⟨trivial, hfiled w v hw hv.1 (by rw [hv.2]; exact hpage w hw)⟩
  have hdma : ensureDmaBuffer.Acts P (fun _ _ => True) fun _ => True := by
    refine .bind (hkeep (written_get _)) fun dma _ => ?_
    split
    · exact .ret trivial
    refine .bind (Q := Paging u) (.atom (fun w hw => ⟨trivial, ?_⟩) fun w hw => .ret ?_)
      fun a ha => .bind (Q := fun _ => True) (.modify (fun _ hw => ⟨trivial, ?_⟩) trivial) fun _ _ => ?_
    · have hv := tended_zalloc .dma nvmePageSize w
      exact hfiled w _ hw hv.filed ((congrArg (Paging u) hv.dma).mpr (hpage w hw))
    · exact alloc_paging (hsame w hw) _ _
    · exact hfiled _ _ hw ⟨⟨rfl, rfl, fun _ => rfl, .quiet rfl, fun _ => rfl⟩, rfl, rfl, rfl⟩ ha
    · split
      · exact .bind (hkeep (written_note _)) fun _ _ => .ret trivial
      · exact .ret trivial
  have hbody : (probeIdentified id nsId mdts).Acts P (fun _ _ => True) fun _ => True := by
    refine .bind (hkeep (written_get _)) fun fmt _ => .bind (hkeep (written_get _)) fun nlbaf _ => ?_
    split
    · exact .ret trivial
    refine .bind (hkeep (written_get _)) fun nsze _ => ?_
    split
    · exact .ret trivial
    refine .bind hdma fun dma _ => ?_
    split
    · exact .ret trivial
    · exact hkeep (written_recordNs _ _ _ _)
  exact .bind hbody fun _ _ => hkeep (written_free id)

/-- The record an iteration leaves: none, the one there was, or the device's own answer. -/
theorem names_rest {d : Device} {x : World} {id nsId : Nat} (hfit : d.Fitting) (h : Names d mdts x)
    (hdata : ∀ o < 4096, x.store.mem (id + o) = d.identify nvmeAdminIdentifyCnsIdNs nsId o)
    (hr : Rest (identifyNsAt x.store.mem id) id nsId mdts x v) : Names d mdts v := by
  obtain ⟨hformatted, hsize, hrecord⟩ := ns_page hdata
  cases hr with
  | rejected _ hk =>
    rw [Names, hk.ns, hk.nsRec]
    exact h
  | noPage _ hk =>
    rw [Names, hk.ns, hk.nsRec]
    exact h
  | noRecord _ _ _ _ hns => exact fun h0 => absurd hns h0
  | tooLarge hf _ _ hlarge _ _ _ =>
    exact absurd (hsize.trans_le (hfit nsId (hformatted.mp hf))) hlarge
  | accepted hpass _ _ _ hns hrec _ =>
    intro _
    refine ⟨nsId, ⟨hformatted.mp hpass.toFormatted, hfit nsId (hformatted.mp hpass.toFormatted)⟩, ?_⟩
    rw [hns, hrec]
    exact hrecord nsId mdts

/-- PROBE RULE, from power-on: one namespace. -/
theorem wp_bootProbe (hm : Coded mayFail) (nsIdx : Nat) (h : Surveyed b p mdts u w) :
    Wp (Powered mayFail) (fun _ => True) (nvmeProbeNs nsIdx mdts) (fun _ => Surveyed b p mdts u)
      (fun _ _ => False) w := by
  refine wp_seq (wp_bootIdentify hm (by decide) (u32 (nsIdx + 1)) h.lasting) (fun _ _ h => h) ?_
  intro id x hx
  by_cases h0 : id = 0
  · rw [Replied, if_pos h0] at hx
    rw [if_pos h0]
    exact wp_ret fun v he => ⟨trivial, surveyed_stable.env (h.unchanged hx.1 hx.2) he⟩
  rw [Replied, if_neg h0] at hx
  rw [if_neg h0]
  obtain ⟨D, hj⟩ := hx.joined
  have hlasting : Surveyed b p mdts u x := h.unchanged (.inl ⟨D, hj⟩) hx.same
  -- what follows runs undisturbed
  let P : World → Prop := fun v => Joined b p D v ∧ Preserved True u v ∧ Paging u v.sys.nvmeDmaBuffer
  have hacts := acts_rest (P := P) (fun y hy => hy.2.1)
    (fun y v hy hv hp => ⟨hy.1.filed hv, hy.2.1.trans hv.toPreserved, hp⟩)
    (fun _ hy => hy.2.2) id (u32 (nsIdx + 1)) mdts
  have hexec := wp_exec_acts (R := Powered mayFail) (fun v hv => hv.1.up.still.quiet) hacts
    ⟨hj, hlasting.same, hlasting.page⟩
  obtain ⟨c, hc, rfl, hsize⟩ := hx.block
  obtain ⟨v', hrun, hrest⟩ := exec_rest hc hsize rfl (u32 (nsIdx + 1)) mdts
  refine wp_mono hexec (fun _ _ => trivial) ?_ ?_
  · rintro ⟨⟩ v hv hrun'
    rw [hrun] at hrun'
    obtain rfl := congrArg Prod.snd hrun'
    refine ⟨.inl ⟨D, hv.1⟩, hv.2.1, hv.2.2, fun hspace hfit hu => ?_⟩
    have hdev : x.dev = u.dev := hlasting.same.dev
    have hspace' : w.Addressable := fun n a ha => hspace n a (by rw [← h.same.oracle]; exact ha)
    refine names_rest hfit (hlasting.names hspace hfit hu) (fun o ho => ?_) hrest
    rw [← hdev]
    exact hx.data hspace' o ho
  · intro e v _ hrun'
    rw [hrun] at hrun'
    cases hrun'

theorem wp_bootProbes (hm : Coded mayFail) : ∀ (n nsIdx : Nat) (w : World), Surveyed b p mdts u w →
    Wp (Powered mayFail) (fun _ => True) (probeLoop mdts n nsIdx) (fun _ => Surveyed b p mdts u)
      (fun _ _ => False) w
  | 0, _, _, h => wp_ret fun _ he => ⟨trivial, surveyed_stable.env h he⟩
  | n + 1, nsIdx, _, h => wp_seq (wp_bootProbe hm nsIdx h) (fun _ _ h => h) fun _ v hv =>
      wp_bootProbes hm n (nsIdx + 1) v hv

/-! ### The whole set-up -/

/-- From `w` the driver has set the controller up: the admin rings are where `b` says, the rings of the
    I/O pair at `sqe` and `cqe`, and driver and controller have the pair as it is when new. -/
structure BroughtUp (w v : World) (b : RingBase) (sqe cqe : Nat) : Prop where
  stride : b.stride = strideOf w.reg.cap
  pages : sqe % 4096 = 0 ∧ cqe % 4096 = 0
  pairs : Lasting b (newPair .io (ioQueueLength w.reg.cap) (ioQueueLength w.reg.cap) b.stride sqe cqe
    (freshCtl (ioQueueLength w.reg.cap) (ioQueueLength w.reg.cap))) v
  cq : Declared nvmeSqeOpcAdminCreateIoCq cqe (ioQueueLength w.reg.cap) v
  sq : Declared nvmeSqeOpcAdminCreateIoSq sqe (ioQueueLength w.reg.cap) v
  same : Preserved (w.reg.ready = false) w v
  page : Paging w v.sys.nvmeDmaBuffer
  names : w.Addressable → w.dev.Fitting → Names w.dev w.dev.ctrl.mdts w →
    Names w.dev w.dev.ctrl.mdts v

theorem Preserved.weaken (h : Preserved True w v) (P : Prop) : Preserved P w v :=
  { h with disk := fun _ => h.disk trivial }

theorem broughtUp_stable {sqe cqe : Nat} : Stable (Powered mayFail) fun v => BroughtUp w v b sqe cqe := by
  intro x v h hr
  have hsame := hr.unchanged (P := True) fun _ => hr.disk h.pairs.work
  exact { h with
    pairs := lasting_stable x v h.pairs hr
    cq := h.cq.grows hsame.log
    sq := h.sq.grows hsame.log
    same := h.same.trans (hsame.weaken _).toPreserved
    page := by rw [hsame.dma]; exact h.page
    names := fun hspace hfit hw => by
      rw [Names, hsame.ns, hsame.nsRec]
      exact h.names hspace hfit hw }

theorem wp_enableIdentified {P : Prop} (hm : Coded mayFail) (h : Waking P b w v) (hr : v.reg.ready = true)
    (hb : b.stride = strideOf w.reg.cap) (hpage : Paging w w.sys.nvmeDmaBuffer)
    (hP : P = (w.reg.ready = false)) :
    Wp (Powered mayFail) (fun _ => True) enableIdentified
      (fun rc x => rc = 0 → ∃ sqe cqe, BroughtUp w x b sqe cqe) (fun _ _ => False) v := by
  subst hP
  have hdestroy : ∀ x, Wp (Powered mayFail) (fun _ => True) destroyAdminQueues
      (fun rc x => rc = 0 → ∃ sqe cqe, BroughtUp w x b sqe cqe) (fun _ _ => False) x := fun x =>
    wp_mono wp_destroyAdminQueues (fun _ h => h) (fun rc _ _ h h0 => absurd h0 h) fun _ _ _ h => h
  refine wp_seq (wp_bootIdentify hm (by decide) 0 (.inl ⟨[], h.joined hr⟩)) (fun _ _ h => h) ?_
  intro id x hx
  by_cases h0 : id = 0
  · rw [if_pos h0]
    exact hdestroy x
  rw [Replied, if_neg h0] at hx
  rw [if_neg h0]
  obtain ⟨D, hj⟩ := hx.joined
  have hsame := h.same.trans (hx.same.weaken _)
  refine hj.up.still.wp_getUsed ?_
  refine (hj.filed (tended_use x _).filed).up.still.wp_modify ?_
  generalize (identifyCtrlAt x.store.mem id).nn = nn
  have hcount : Tended x ((x.use (.nn nn)).setSys { x.sys with nsCount := nn }) :=
    ⟨⟨⟨rfl, rfl, fun _ => rfl, .quiet rfl, fun _ => rfl⟩, rfl, rfl, rfl⟩, rfl, rfl, rfl⟩
  have hj' := hj.filed hcount.filed
  refine hj'.up.still.wp_get ?_
  generalize hmdts :
    (identifyCtrlAt ((x.use (.nn nn)).setSys { x.sys with nsCount := nn }).store.mem id).mdts = mdts
  refine hj'.up.still.wp_modify ?_
  generalize hy : ((x.use (.nn nn)).setSys { x.sys with nsCount := nn }).free id = y
  have hfree : Tended ((x.use (.nn nn)).setSys { x.sys with nsCount := nn }) y := hy ▸ tended_free id _
  have hjy := hj'.filed hfree.filed
  have hsame' : Unchanged (w.reg.ready = false) w y :=
    (hsame.trans (hcount.toUnchanged.weaken _)).trans (hfree.toUnchanged.weaken _)
  split
  · exact hdestroy y
  refine wp_seq (wp_bootQueues hm hjy h.io (by rw [hsame'.cap])) (fun _ _ h => h) fun rc t ht => ?_
  split
  · exact hdestroy t
  rename_i hrc
  obtain ⟨sqe, cqe, D', hsqe, hcqe, hjt, hsame₁, hcq, hsq⟩ := ht (not_not.mp hrc)
  have hsame₂ := hsame'.trans (hsame₁.weaken _)
  have hpaging : Paging t w.sys.nvmeDmaBuffer :=
    ⟨hpage.1, fun hspace => hpage.2 fun n c hc => hspace n c (by rw [hsame₂.oracle]; exact hc)⟩
  have hbegun : Surveyed b _ mdts t t :=
    ⟨.inl ⟨D', hjt⟩, (Unchanged.refl True t).toPreserved, by rw [hsame₂.dma]; exact hpaging, fun _ _ h => h⟩
  refine wp_seq (wp_bootProbes hm nn 0 t hbegun) (fun _ _ h => h) fun _ z hz => ?_
  refine wp_ret fun z' he => ⟨trivial, fun _ => ⟨sqe, cqe, ?_⟩⟩
  have hz' := surveyed_stable.env hz he
  have hspace' : ∀ {a : World}, Unchanged (w.reg.ready = false) w a → w.Addressable → a.Addressable :=
    fun ha hspace n c hc => hspace n c (by rw [← ha.oracle]; exact hc)
  refine ⟨hb, ⟨hsqe, hcqe⟩, hz'.lasting, hcq.grows hz'.same.log, hsq.grows hz'.same.log,
    hsame₂.toPreserved.trans (hz'.same.weaken _),
    ⟨hz'.page.1, fun hspace => hz'.page.2 (hspace' hsame₂ hspace)⟩, fun hspace hfit hnames => ?_⟩
  -- the MDTS field in the buffer was the device's own
  have hanswer : mdts = w.dev.ctrl.mdts := by
    rw [← hmdts, World.setSys_store, World.use_store, ctrl_page (hx.data (hspace' h.same hspace)), hsame.dev]
    rfl
  rw [← hanswer] at hnames ⊢
  rw [← hsame₂.dev] at hfit hnames ⊢
  refine hz'.names (hspace' hsame₂ hspace) hfit ?_
  rw [Names, hsame₂.ns, hsame₂.nsRec]
  exact hnames

theorem wp_setUp (hm : Coded mayFail) (h : PoweredOn w) (hpage : Paging w w.sys.nvmeDmaBuffer)
    (nvmeBase : Nat) : Wp (Powered mayFail) (fun _ => True) (nvmeControllerSetup nvmeBase)
      (fun rc v => rc = some 0 → ∃ b sqe cqe, BroughtUp w v b sqe cqe) (fun _ _ => False) w := by
  have hstable : Stable (Powered mayFail) fun v => ∃ b sqe cqe, BroughtUp w v b sqe cqe := by
    rintro x y ⟨b, sqe, cqe, hx⟩ hr
    exact ⟨b, sqe, cqe, broughtUp_stable x y hx hr⟩
  refine wp_controllerSetup hstable h (fun b x hb hr hx => ?_) nvmeBase
  exact wp_mono (wp_enableIdentified hm hx hr hb hpage rfl) (fun _ h => h)
    (fun _ _ _ hy hrc => ⟨b, hy hrc⟩) fun _ _ _ h => h

/-- CORRECT: whenever the set-up succeeds, the controller has the queue pairs the driver has: the admin
    pair where the registers say, the I/O pair new and of the length both compute from CAP; what was left
    behind of the probes is at most one Identify command. The disk is as before, if the controller was
    off. -/
theorem setup_agrees (hm : Coded mayFail) (h : PoweredOn w) (hpage : Paging w w.sys.nvmeDmaBuffer)
    {nvmeBase : Nat} (hrun : Steps (Powered mayFail) w (nvmeControllerSetup nvmeBase) v (.ret (some 0))) :
    ∃ b sqe cqe, BroughtUp w v b sqe cqe :=
  (wp_setUp hm h hpage nvmeBase v _ hrun).2 rfl

/-! ### A set-up that succeeds -/

/-- One namespace of 1000 blocks of 512 bytes. -/
def diskDevice : Device :=
  ⟨1, 512, 1000, fun cns nsid o =>
    if cns = nvmeAdminIdentifyCnsIdCtrl then if o = 516 then 1 else 0
    else if nsid = 1 then identifyBytes 9 o else 0⟩

/-- Sixteen allocations succeed. -/
def diskStart : World :=
  { bareWorld (nvmeCapCssNvme + 0x1000000 + 63) fun n => if n < 16 then some (sampleBlock n) else none with
    dev := diskDevice }

/-- The controller starts, and answers each command at once. -/
def bootScript : List (Option PowerMove) :=
  let answer := [.work (.fetch .admin), .work (.exec .admin 0), .work (.post .admin 0)].map some
  List.flatten [List.replicate 20 none, [some .start], List.replicate 6 none, answer,
    List.replicate 16 none, answer, List.replicate 12 none, answer, List.replicate 7 none, answer,
    List.replicate 20 none]

def diskBoot : World × Drv (Option Int) :=
  follow (powerMove noFail) bootScript diskStart (nvmeControllerSetup 1)

theorem diskStart_off : PoweredOn diskStart := ⟨rfl, fun _ _ => rfl⟩

set_option maxRecDepth 20000 in
theorem diskBoot_run :
    Steps (Powered noFail) diskStart (nvmeControllerSetup 1) diskBoot.1 (.ret (some 0)) :=
  follow_ret (by decide +kernel) fun _ _ h => h

theorem setup_agrees_sample : ∃ b sqe cqe, BroughtUp diskStart diskBoot.1 b sqe cqe :=
  setup_agrees (by simp [Coded, noFail]) diskStart_off ⟨rfl, fun _ => by decide⟩ diskBoot_run

end Nvme
