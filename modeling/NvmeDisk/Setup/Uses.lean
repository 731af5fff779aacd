import NvmeDisk.Setup.Routine

/-! What the set-up goes by. The driver puts down what it uses of the device and of the allocator, newest
    first; each function is described by what it puts down (`Uses`), whatever else the device does. Up to
    the end of its set-up a controller needs one list of answers (`CameUp`). -/

namespace Nvme
open Bytes BlockDev Resume

/-- `us` was put down since `u₀`. -/
def Put (u₀ us : List Used) (w : World) : Prop := w.used = us ++ u₀

/-- Begun with `us` put down, the code ends, and with a result and a list as `Φ` says. -/
abbrev Uses {α : Type} (u₀ us : List Used) (p : Drv α) (Φ : α → List Used → Prop) : Prop :=
  Drives Untrusted (Put u₀) us p Φ

/-- An action that puts nothing down. -/
def Unused (w v : World) : Prop := v.used = w.used

/-- After the command whose completion is `c`; one that was given up on has none. -/
def Awaited (us : List Used) (c : NvmeCqe) (us' : List Used) : Prop :=
  us' = .cqe .admin c :: us ∨ (c = nvmeErrorCqe ∧ us' = us)

/-- A command for which memory is allocated at `site` gets it, and is completed with status code 0. -/
def Granted (site : Site) (us us' : List Used) : Prop :=
  ∃ a c, a ≠ 0 ∧ nvmeIsCqeSuccess c = true ∧ us' = .cqe .admin c :: .alloc site a :: us

/-- It is not submitted or not completed, or completed with an error. -/
inductive Denied (site : Site) (us : List Used) : List Used → Prop where
  | unanswered (a : Nat) : Denied site us (.alloc site a :: us)
  | failed (a : Nat) {c : NvmeCqe} : nvmeIsCqeSuccess c = false →
      Denied site us (.cqe .admin c :: .alloc site a :: us)

/-- After polls of CSTS. -/
def Polled (us us' : List Used) : Prop := ∃ polls : List Nat, us' = polls.map .csts ++ us

/-- After polls of CSTS, the last of which found RDY at `rdy`. -/
def Turned (rdy : Nat) (us us' : List Used) : Prop :=
  ∃ v polled, Polled us polled ∧ rdy = v &&& nvmeCstsRdy ∧ us' = .csts v :: polled

/-- What brings a controller up once the admin submission ring is allocated: CSTS.RDY is set, there are
    namespaces, and Identify and the two create commands get their memory and succeed. -/
inductive CameUp : List Used → Prop where
  | up {a n : Nat} {earlier ready identified created us : List Used} (later : List Used) : a ≠ 0 →
      Turned 1 (.alloc (.sqRing .admin) a :: earlier) ready → Granted .identify ready identified →
      n ≠ 0 → Granted (.cqRing .io) (.nn n :: identified) created → Granted (.sqRing .io) created us →
      CameUp (later ++ us)

variable {u₀ us us' : List Used} {w v : World} {site : Site} {r : RingId} {i : QId} {α β : Type}
  {Φ Ψ : α → List Used → Prop}

/-! ### Actions -/

theorem put_stable (u₀ us : List Used) : Stable Untrusted (Put u₀ us) := fun _ _ h hr => hr.used.trans h

theorem Put.use (h : Put u₀ us w) (x : Used) : Put u₀ (x :: us) (w.use x) := congrArg (x :: ·) h

theorem uses_ret {a : α} (h : Φ a us) : Uses u₀ us (.ret a) Φ := drives_ret (put_stable u₀) h

theorem uses_keeps {p : Drv α} (hp : p.Does Unused) : Uses u₀ us p fun _ us' => us' = us :=
  drives_keeps (put_stable u₀) (hp.keeps fun _ _ hu h => hu.trans h)

/-- Code that puts nothing down may come first. -/
theorem uses_pass {p : Drv β} {k : β → Drv α} (hp : p.Does Unused) (hk : ∀ b, Uses u₀ us (k b) Φ) :
    Uses u₀ us (p >>= k) Φ := (uses_keeps hp).pass hk

theorem unused_get (g : World → α) : (Prog.get g : Drv α).Does Unused := .get (ρ := Unused) (fun _ => rfl) g

theorem unused_warn (c : Warn) : (warn c).Does Unused := .modify fun _ => rfl

theorem unused_free (a : Nat) : (free a).Does Unused := .modify fun w => by
  rw [Unused, World.free]
  split <;> rfl

theorem unused_setQ {f : World → World} (hf : ∀ w, ∃ q, f w = w.setQ i q) :
    (Prog.modify f : Drv Unit).Does Unused := .modify fun w => by
  obtain ⟨q, hq⟩ := hf w
  rw [hq]
  rfl

theorem unused_destroyCq (i : QId) : (nvmeDestroyCq i).Does Unused :=
  .bind (unused_get _) fun _ => .bind (unused_free _) fun _ => unused_setQ fun _ => ⟨_, rfl⟩

theorem unused_destroySq (i : QId) : (nvmeDestroySq i).Does Unused :=
  .bind (unused_get _) fun _ => .bind (unused_free _) fun _ => unused_setQ fun _ => ⟨_, rfl⟩

theorem unused_destroyAdminQueues : destroyAdminQueues.Does Unused :=
  .bind (unused_destroySq _) fun _ => .bind (unused_destroyCq _) fun _ => .ret

/-- An action that puts down `f a` for its result `a`. -/
theorem uses_act {f : α → Used} {g : World → α × World} (hg : ∀ w, (g w).2.used = f (g w).1 :: w.used) :
    Uses u₀ us (.act g) fun a us' => us' = f a :: us :=
  drives_atom (put_stable u₀) fun w hw =>
    ⟨f (g w).1 :: us, (hg w).trans (congrArg _ hw), uses_ret rfl⟩

theorem uses_getUsed (f : Nat → Used) (g : World → Nat) :
    Uses u₀ us (getUsed f g) fun a us' => us' = f a :: us := uses_act fun _ => rfl

theorem uses_zalloc (site : Site) (size : Nat) :
    Uses u₀ us (zallocPageAligned site size) fun a us' => us' = .alloc site a :: us :=
  uses_act fun w => by
    dsimp only
    split <;> rfl

theorem uses_malloc (site : Site) (size : Nat) :
    Uses u₀ us (malloc site size) fun a us' => us' = .alloc site a :: us := uses_act fun _ => rfl

/-! ### Commands -/

theorem uses_wait : Uses u₀ us (nvmeWait .admin) (Awaited us) := by
  have hconsume : Uses u₀ us (nvmeConsumeCqe .admin) (Awaited us) := by
    refine uses_pass (.act fun w => ?_) fun slot => ?_
    · split <;> rfl
    · cases slot with
      | none => exact uses_ret (.inr ⟨rfl, rfl⟩)
      | some s => exact (uses_act fun _ => rfl).mono fun _ _ h => .inl h
  have hloop : ∀ k, Uses u₀ us (nvmeWaitLoop .admin k) (Awaited us) := by
    intro k
    induction k with
    | zero => exact uses_pass (.modify fun _ => rfl) fun _ => uses_ret (.inr ⟨rfl, rfl⟩)
    | succ k ih =>
      refine uses_pass (unused_get _) fun ready => ?_
      split
      · exact hconsume
      · exact ih
  exact hloop 500

theorem uses_submit {opc metadata data data2 nsid dword10 dword11 dword12 : Nat} {full : Drv α}
    {k : NvmeCqe → Drv α} (hfull : Uses u₀ us full Φ)
    (hk : ∀ c us', Awaited us c us' → Uses u₀ us' (k c) Φ) :
    Uses u₀ us (do
      match ← getNextSqe .admin opc metadata data data2 with
      | none => full
      | some slot =>
        fillIn .admin (some slot) nsid dword10 dword11 dword12
        commitSqe .admin
        let cqe ← nvmeWait .admin
        k cqe) Φ := by
  refine uses_pass (.act fun _ => rfl) fun slot => ?_
  cases slot with
  | none => exact hfull
  | some s =>
    refine uses_pass (.modify fun _ => rfl) fun _ => uses_pass (.modify fun _ => rfl) fun _ => ?_
    exact uses_wait.bind hk

/-- A command whose memory `a` was allocated: it succeeds, or it is as good as denied. -/
theorem Awaited.outcome {a : Nat} {c : NvmeCqe} (h : Awaited (.alloc site a :: us) c us') :
    (nvmeIsCqeSuccess c = true ∧ us' = .cqe .admin c :: .alloc site a :: us) ∨
      (nvmeIsCqeSuccess c = false ∧ Denied site us us') := by
  rcases h with rfl | ⟨rfl, rfl⟩
  · cases hc : nvmeIsCqeSuccess c with
    | true => exact .inl ⟨rfl, rfl⟩
    | false => exact .inr ⟨rfl, .failed a hc⟩
  · exact .inr ⟨by decide, .unanswered a⟩

theorem uses_identify (cns nsid : Nat) : Uses u₀ us (nvmeAdminIdentify cns nsid) fun id us' =>
    (id = 0 ∧ Denied .identify us us') ∨ (id ≠ 0 ∧ Granted .identify us us') := by
  refine (uses_zalloc _ _).bind ?_
  rintro a _ rfl
  split
  · rename_i h0
    subst h0
    exact uses_pass (unused_warn _) fun _ => uses_ret (.inl ⟨rfl, .unanswered 0⟩)
  rename_i h0
  refine uses_submit (uses_pass (unused_warn _) fun _ => uses_pass (unused_free _) fun _ =>
    uses_ret (.inl ⟨rfl, .unanswered a⟩)) fun c us' ht => ?_
  rcases ht.outcome with ⟨hc, rfl⟩ | ⟨hc, hd⟩
  · rw [if_pos hc]
    exact uses_ret (.inr ⟨h0, a, c, h0, hc, rfl⟩)
  · rw [if_neg (by simp [hc])]
    exact uses_pass (unused_free _) fun _ => uses_ret (.inl ⟨rfl, hd⟩)

/-! ### Rings -/

theorem uses_initRing (r : RingId) (qIdx length : Nat) : Uses u₀ us (initRing r qIdx length) fun rc us' =>
    ∃ a, us' = .alloc r.site a :: us ∧ ((rc = 0 ∧ a ≠ 0) ∨ (rc = -1 ∧ a = 0)) := by
  refine uses_pass (unused_setQ fun w => (setCommon_pair w r _ _).imp fun _ => And.left) fun _ => ?_
  refine (uses_zalloc _ _).bind ?_
  rintro a _ rfl
  refine uses_pass (unused_setQ fun w => (setRing_pair w r a).imp fun _ => And.left) fun _ => ?_
  split
  · rename_i h0
    exact uses_pass (unused_warn _) fun _ => uses_ret ⟨a, rfl, .inr ⟨rfl, h0⟩⟩
  · rename_i h0
    exact uses_pass (unused_setQ fun w => (initRing_pair w r _ _ a).imp fun _ => And.left) fun _ =>
      uses_ret ⟨a, rfl, .inl ⟨rfl, h0⟩⟩

/-- A create command and its ring: `g` finds the ring again, at the address `addr` says. -/
theorem uses_create {γ : Type} {r : RingId} {qIdx opc nsid dword11 dword12 : Nat} {g : World → γ}
    {addr dword10 : γ → Nat} {destroy : Drv Unit} (hd : destroy.Does Unused) (cap : Nat) :
    Uses u₀ us (do
      let rc ← initRing r qIdx (ioQueueLength cap)
      if rc ≠ 0 then return -1
      else
        let q ← .get g
        match ← getNextSqe .admin opc 0 (addr q) 0 with
        | none =>
          destroy
          return -1
        | some slot =>
          fillIn .admin (some slot) nsid (dword10 q) dword11 dword12
          commitSqe .admin
          let cqe ← nvmeWait .admin
          if nvmeIsCqeSuccess cqe then return 0
          else
            destroy
            return (-1 : Int)) fun rc us' =>
      (rc = 0 ∧ Granted r.site us us') ∨ (rc = -1 ∧ Denied r.site us us') := by
  refine (uses_initRing r qIdx _).bind ?_
  rintro rc _ ⟨a, rfl, ⟨rfl, h0⟩ | ⟨rfl, rfl⟩⟩
  · rw [if_neg (by decide)]
    refine uses_pass (unused_get _) fun q => ?_
    refine uses_submit (uses_pass hd fun _ => uses_ret (.inr ⟨rfl, .unanswered a⟩)) fun c us' ht => ?_
    rcases ht.outcome with ⟨hc, rfl⟩ | ⟨hc, hden⟩
    · rw [if_pos hc]
      exact uses_ret (.inl ⟨rfl, a, c, h0, hc, rfl⟩)
    · rw [if_neg (by simp [hc])]
      exact uses_pass hd fun _ => uses_ret (.inr ⟨rfl, hden⟩)
  · rw [if_pos (by decide)]
    exact uses_ret (.inr ⟨rfl, .unanswered 0⟩)

theorem uses_createIoCq : Uses u₀ us (nvmeCreateIoCq 3) fun rc us' =>
    (rc = 0 ∧ Granted (.cqRing .io) us us') ∨ (rc = -1 ∧ Denied (.cqRing .io) us us') :=
  uses_pass (unused_get _) fun cap => uses_create (r := .cq .io) (unused_destroyCq _) cap

theorem uses_createIoSq : Uses u₀ us (nvmeCreateIoSq 2) fun rc us' =>
    (rc = 0 ∧ Granted (.sqRing .io) us us') ∨ (rc = -1 ∧ Denied (.sqRing .io) us us') :=
  uses_pass (unused_get _) fun cap => uses_create (r := .sq .io) (unused_destroySq _) cap

/-- One of the two create commands is denied. -/
def IoDenied (us us' : List Used) : Prop :=
  Denied (.cqRing .io) us us' ∨ ∃ created, Granted (.cqRing .io) us created ∧
    Denied (.sqRing .io) created us'

theorem uses_createIoQueues : Uses u₀ us nvmeCreateIoQueues fun rc us' =>
    (rc = 0 ∧ ∃ created, Granted (.cqRing .io) us created ∧ Granted (.sqRing .io) created us') ∨
      (rc = -1 ∧ IoDenied us us') := by
  refine uses_createIoCq.bind ?_
  rintro rc created (⟨rfl, hcq⟩ | ⟨rfl, hd⟩)
  · rw [if_neg (by decide)]
    refine uses_createIoSq.bind ?_
    rintro rc us' (⟨rfl, hsq⟩ | ⟨rfl, hd⟩)
    · rw [if_neg (by decide)]
      exact uses_ret (.inl ⟨rfl, created, hcq, hsq⟩)
    · rw [if_pos (by decide)]
      exact uses_pass (unused_destroyCq _) fun _ => uses_ret (.inr ⟨rfl, .inr ⟨created, hcq, hd⟩⟩)
  · rw [if_pos (by decide)]
    exact uses_ret (.inr ⟨rfl, .inl hd⟩)

/-! ### The status register -/

theorem Polled.refl (us : List Used) : Polled us us := ⟨[], rfl⟩

theorem Polled.poll (h : Polled us us') (v : Nat) : Polled us (.csts v :: us') := by
  obtain ⟨polls, rfl⟩ := h
  exact ⟨v :: polls, rfl⟩

theorem uses_waitCstsRdy (rdy : Nat) : Uses u₀ us (nvmeWaitCstsRdy rdy) fun rc us' =>
    (rc = 0 ∧ Turned rdy us us') ∨ (rc = -1 ∧ Polled us us') := by
  have hloop : ∀ n polled, Polled us polled → Uses u₀ polled (cstsLoop rdy n) fun rc us' =>
      (rc = 0 ∧ Turned rdy us us') ∨ (rc = -1 ∧ Polled us us') := by
    intro n
    induction n with
    | zero => exact fun polled h => uses_pass (unused_warn _) fun _ => uses_ret (.inr ⟨rfl, h⟩)
    | succ n ih =>
      intro polled h
      refine (uses_getUsed _ _).bind ?_
      rintro csts _ rfl
      split
      · rename_i hrdy
        exact uses_ret (.inl ⟨rfl, csts, polled, h, hrdy, rfl⟩)
      split
      · exact uses_ret (.inr ⟨rfl, h.poll csts⟩)
      · exact ih _ (h.poll csts)
  exact uses_pass (unused_get _) fun cap => hloop _ us (.refl us)

/-! ### Lists that bring no controller up -/

/-- The submission ring of a pair got no memory. -/
def NoSq (i : QId) (us : List Used) : Prop := ∀ a, .alloc (.sqRing i) a ∈ us → a = 0

/-- No I/O submission queue was created. -/
def Uncreated (us : List Used) : Prop :=
  ∀ later before created, us = later ++ created → ¬ Granted (.sqRing .io) before created

theorem Uncreated.not_up (h : Uncreated us) : ¬ CameUp us := by
  rintro ⟨later, _, _, _, _, _, hsq⟩
  exact h later _ _ rfl hsq

theorem NoSq.uncreated (h : NoSq .io us) : Uncreated us := by
  rintro later before created rfl ⟨a, c, h0, _, rfl⟩
  exact h0 (h a (by simp))

theorem NoSq.denied (h : NoSq .io us) (hd : Denied (.sqRing .io) us us') : Uncreated us' := by
  rintro later before created hl ⟨a, c, h0, hc, rfl⟩
  -- the allocation is the only one there is, and no success follows it
  have hno : ∀ l, us ≠ l ++ .alloc (.sqRing .io) a :: before := fun l hl => h0 (h a (by simp [hl]))
  cases hd with
  | unanswered b =>
    rcases later with _ | ⟨x, later⟩
    · cases hl
    · exact hno (later ++ [.cqe .admin c]) (by simpa using (List.cons.inj hl).2)
  | failed b hfail =>
    rcases later with _ | ⟨x, _ | ⟨y, later⟩⟩
    · cases hl
      rw [hc] at hfail
      cases hfail
    · cases hl
    · exact hno (later ++ [.cqe .admin c]) (by simpa using (List.cons.inj (List.cons.inj hl).2).2)

theorem NoSq.cons (h : NoSq i us) {x : Used} (hx : ∀ a, x = .alloc (.sqRing i) a → a = 0) :
    NoSq i (x :: us) := fun a hm => by
  rcases List.mem_cons.mp hm with heq | hm
  · exact hx a heq.symm
  · exact h a hm

theorem NoSq.alloc (h : NoSq i us) (hsite : site ≠ .sqRing i) (a : Nat) : NoSq i (.alloc site a :: us) :=
  h.cons fun _ heq => absurd (Used.alloc.inj heq).1 hsite

theorem NoSq.polled (h : NoSq i us) (hp : Polled us us') : NoSq i us' := by
  obtain ⟨polls, rfl⟩ := hp
  intro a hm
  exact h a (by simpa using hm)

theorem NoSq.granted (h : NoSq i us) (hg : Granted site us us') (hsite : site ≠ .sqRing i) :
    NoSq i us' := by
  obtain ⟨a, c, _, _, rfl⟩ := hg
  exact (h.alloc hsite a).cons (by simp)

theorem NoSq.other (h : NoSq i us) (hd : Denied site us us') (hsite : site ≠ .sqRing i) :
    NoSq i us' := by
  cases hd with
  | unanswered a => exact h.alloc hsite a
  | failed a _ => exact (h.alloc hsite a).cons (by simp)

theorem NoSq.ioDenied (h : NoSq .io us) (hd : IoDenied us us') : Uncreated us' := by
  rcases hd with hd | ⟨created, hcq, hd⟩
  · exact (h.other hd (by decide)).uncreated
  · exact (h.granted hcq (by decide)).denied hd

/-! ### What stays put down -/

/-- More was put down. -/
def Extends (us us' : List Used) : Prop := ∃ new, us' = new ++ us

theorem Extends.noSq (h : Extends us us') (hno : NoSq i us') : NoSq i us := by
  obtain ⟨new, rfl⟩ := h
  exact fun a hm => hno a (List.mem_append_right _ hm)

theorem Extends.trans {us'' : List Used} (h : Extends us us') (h' : Extends us' us'') :
    Extends us us'' := by
  obtain ⟨new, rfl⟩ := h
  obtain ⟨new', rfl⟩ := h'
  exact ⟨new' ++ new, (List.append_assoc ..).symm⟩

theorem Polled.extends (h : Polled us us') : Extends us us' := by
  obtain ⟨polls, rfl⟩ := h
  exact ⟨_, rfl⟩

theorem Turned.polled {rdy : Nat} (h : Turned rdy us us') : Polled us us' := by
  obtain ⟨v, polled, hp, _, rfl⟩ := h
  exact hp.poll v

theorem Granted.extends (h : Granted site us us') : Extends us us' := by
  obtain ⟨a, c, _, _, rfl⟩ := h
  exact ⟨[_, _], rfl⟩

theorem Denied.extends (h : Denied site us us') : Extends us us' := by
  cases h with
  | unanswered a => exact ⟨[_], rfl⟩
  | failed a _ => exact ⟨[_, _], rfl⟩

theorem IoDenied.extends (h : IoDenied us us') : Extends us us' := by
  rcases h with hd | ⟨created, hcq, hd⟩
  · exact hd.extends
  · exact hcq.extends.trans hd.extends

/-! ### The namespaces -/

/-- An action that puts down one thing at most. -/
def Adds (w v : World) : Prop := v.used = w.used ∨ ∃ x, v.used = x :: w.used

theorem adds_zalloc (site : Site) (size : Nat) : (zallocPageAligned site size).Does Adds := by
  refine .act fun w => ?_
  dsimp only
  split <;> exact .inr ⟨_, rfl⟩

theorem adds_set {f : World → World} (hf : ∀ w, (f w).used = w.used) :
    (Prog.modify f : Drv Unit).Does Adds := .modify fun w => .inl (hf w)

theorem adds_free (a : Nat) : (free a).Does Adds := (unused_free a).mono fun _ _ => .inl

theorem adds_get (g : World → α) : (Prog.get g : Drv α).Does Adds := .get (ρ := Adds) (fun _ => .inl rfl) g

theorem adds_routine : Routine (fun _ => True) Adds where
  refl _ := .inl rfl
  poll _ _ := .inr ⟨_, rfl⟩
  onQueue h := h.used.imp_right fun ⟨_, hc⟩ => ⟨_, hc⟩
  zalloc size _ := adds_zalloc _ size
  warn _ := adds_set fun _ => rfl
  free := adds_free
  setQ _ _ _ := .inl rfl

theorem adds_recordNs (id nsId mdts fmt : Nat) : (recordNs id nsId mdts fmt).Does Adds := by
  have huse : ∀ f g, (getUsed f g).Does Adds := fun _ _ => .act fun _ => .inr ⟨_, rfl⟩
  refine .bind (.act fun _ => .inr ⟨_, rfl⟩) fun rec => .bind (adds_set fun _ => rfl) fun _ => ?_
  split
  · exact adds_set fun _ => rfl
  refine .bind (adds_get _) fun _ => .bind (huse _ _) fun _ => .bind (huse _ _) fun _ => ?_
  dsimp only
  split
  · exact .bind (adds_set fun _ => rfl) fun _ => .bind (adds_set fun _ => rfl) fun _ => adds_free _
  · exact .modify fun _ => .inr ⟨_, rfl⟩

theorem adds_ensureDma : ensureDmaBuffer.Does Adds := by
  refine .bind (adds_get _) fun dma => ?_
  split
  · exact .ret
  · refine .bind (adds_zalloc _ _) fun dma => .bind (adds_set fun _ => rfl) fun _ => ?_
    split
    · exact .bind (adds_set fun _ => rfl) fun _ => .ret
    · exact .ret

theorem adds_probeNs (nsIdx mdts : Nat) : (nvmeProbeNs nsIdx mdts).Does Adds := by
  refine .bind (adds_routine.identify _ _) fun id => ?_
  split
  · exact .ret
  refine .bind (.bind (adds_get _) fun fmt => .bind (adds_get _) fun nlbaf => ?_) fun _ => adds_free _
  split
  · exact .ret
  refine .bind (adds_get _) fun nsze => ?_
  split
  · exact .ret
  refine .bind adds_ensureDma fun dma => ?_
  split
  · exact .ret
  · exact adds_recordNs _ _ _ _

theorem adds_probeLoop (mdts : Nat) : ∀ n nsIdx, (probeLoop mdts n nsIdx).Does Adds
  | 0, _ => .ret
  | n + 1, nsIdx => .bind (adds_probeNs nsIdx mdts) fun _ => adds_probeLoop mdts n (nsIdx + 1)

/-- Whatever the namespaces are, what was put down before stays. -/
theorem uses_probeLoop (mdts n nsIdx : Nat) :
    Uses u₀ us (probeLoop mdts n nsIdx) fun _ us' => Extends us us' := by
  intro w hw
  have hstable : Stable Untrusted fun v : World => ∃ us', Extends us us' ∧ Put u₀ us' v :=
    fun _ _ ⟨us', he, h⟩ hr => ⟨us', he, put_stable u₀ us' _ _ h hr⟩
  have hkeeps := (adds_probeLoop mdts n nsIdx).keeps (P := fun v => ∃ us', Extends us us' ∧ Put u₀ us' v)
    fun x v hadd ⟨us', he, h⟩ => ?_
  · exact wp_mono (wp_keeps hstable hkeeps ⟨us, ⟨[], rfl⟩, hw⟩) (fun _ _ => trivial) (fun _ _ _ h => h)
      fun _ _ _ h => h.elim
  · rcases hadd with hv | ⟨y, hv⟩
    · exact ⟨us', he, hv.trans h⟩
    · exact ⟨y :: us', he.trans ⟨[y], rfl⟩, hv.trans (congrArg _ h)⟩

/-! ### The controller -/

/-- The result tells whether the controller came up. -/
def TellsUp (rc : Int) (us : List Used) : Prop := (rc = 0 ∧ CameUp us) ∨ (rc = -1 ∧ ¬ CameUp us)

theorem uses_failed (h : ¬ CameUp us) : Uses u₀ us destroyAdminQueues TellsUp :=
  uses_pass (unused_destroySq _) fun _ => uses_pass (unused_destroyCq _) fun _ => uses_ret (.inr ⟨rfl, h⟩)

/-- From CSTS.RDY on. -/
theorem uses_enableIdentified {a : Nat} {earlier : List Used} (h0 : a ≠ 0)
    (hready : Turned 1 (.alloc (.sqRing .admin) a :: earlier) us) (hno : NoSq .io us) :
    Uses u₀ us enableIdentified TellsUp := by
  refine (uses_identify _ _).bind ?_
  rintro id identified (⟨rfl, hd⟩ | ⟨hid, hg⟩)
  · rw [if_pos rfl]
    exact uses_failed (hno.other hd (by decide)).uncreated.not_up
  rw [if_neg hid]
  refine (uses_getUsed _ _).bind ?_
  rintro n _ rfl
  have hno : NoSq .io (.nn n :: identified) := (hno.granted hg (by decide)).cons (by simp)
  refine uses_pass (.modify fun _ => rfl) fun _ => uses_pass (unused_get _) fun mdts => ?_
  refine uses_pass (unused_free _) fun _ => ?_
  split
  · exact uses_failed hno.uncreated.not_up
  rename_i hn
  refine uses_createIoQueues.bind ?_
  rintro rc created (⟨rfl, _, hcq, hsq⟩ | ⟨rfl, hd⟩)
  · rw [if_neg (by decide)]
    refine (uses_probeLoop _ _ _).bind ?_
    rintro _ us' ⟨later, rfl⟩
    exact uses_ret (.inl ⟨rfl, .up later h0 hready hg hn hcq hsq⟩)
  · rw [if_pos (by decide)]
    exact uses_failed (hno.ioDenied hd).not_up

theorem uses_controllerEnable (hno : NoSq .io us) : Uses u₀ us nvmeControllerEnable TellsUp := by
  have hfail : ∀ {us}, NoSq .io us → Uses u₀ us (.ret (-1)) TellsUp :=
    fun h => uses_ret (.inr ⟨rfl, h.uncreated.not_up⟩)
  refine uses_pass (.modify fun _ => rfl) fun _ => (uses_waitCstsRdy 0).bind ?_
  rintro rc polled (⟨rfl, ht⟩ | ⟨rfl, hp⟩)
  · rw [if_neg (by decide)]
    have hno := hno.polled ht.polled
    refine uses_pass (unused_get _) fun cap => uses_pass (.modify fun _ => rfl) fun _ => ?_
    refine (uses_initRing (.cq .admin) _ _).bind ?_
    rintro rc _ ⟨c, rfl, ⟨rfl, _⟩ | ⟨rfl, _⟩⟩
    · rw [if_neg (by decide)]
      have hno : NoSq .io (.alloc (.cqRing .admin) c :: polled) := hno.alloc (by decide) c
      refine (uses_initRing (.sq .admin) _ _).bind ?_
      rintro rc _ ⟨a, rfl, ⟨rfl, h0⟩ | ⟨rfl, _⟩⟩
      · rw [if_neg (by decide)]
        have hno : NoSq .io (.alloc (.sqRing .admin) a :: .alloc (.cqRing .admin) c :: polled) :=
          hno.alloc (by decide) a
        refine uses_pass (.modify fun _ => rfl) fun _ => uses_pass (.modify fun _ => rfl) fun _ => ?_
        refine uses_pass (.modify fun _ => rfl) fun _ => uses_pass (.modify fun _ => rfl) fun _ => ?_
        refine (uses_waitCstsRdy 1).bind ?_
        rintro rc us' (⟨rfl, hready⟩ | ⟨rfl, hp⟩)
        · rw [if_neg (by decide)]
          exact uses_enableIdentified h0 hready (hno.polled hready.polled)
        · rw [if_pos (by decide)]
          exact uses_failed (hno.polled hp).uncreated.not_up
      · rw [if_pos (by decide)]
        exact uses_pass (unused_destroyCq _) fun _ => hfail (hno.alloc (by decide) a)
    · rw [if_pos (by decide)]
      exact hfail (hno.alloc (by decide) c)
  · rw [if_pos (by decide)]
    exact hfail (hno.polled hp)

/-- SET-UP RULE: `nvme_controller_enable` succeeds exactly if the controller came up. -/
theorem uses_controllerSetup (hno : NoSq .io us) (nvmeBase : Nat) :
    Uses u₀ us (nvmeControllerSetup nvmeBase) fun r us' => r = some 0 ↔ CameUp us' := by
  have hnone : ∀ {us}, NoSq .io us →
      Uses u₀ us (.ret (none : Option Int)) fun r us' => r = some 0 ↔ CameUp us' :=
    fun h => uses_ret (iff_of_false (by simp) h.uncreated.not_up)
  unfold nvmeControllerSetup
  split
  · exact hnone hno
  refine uses_pass (unused_get _) fun cap => ?_
  split
  · exact hnone hno
  refine (uses_zalloc _ _).bind ?_
  rintro ctrl _ rfl
  have hno : NoSq .io (.alloc .ctrl ctrl :: us) := hno.alloc (by decide) ctrl
  split
  · exact uses_pass (unused_warn _) fun _ => hnone hno
  refine uses_pass (.modify fun _ => rfl) fun _ => (uses_controllerEnable hno).bind ?_
  rintro rc us' (⟨rfl, hup⟩ | ⟨rfl, hdown⟩)
  · exact uses_ret (iff_of_true rfl hup)
  · exact uses_pass (unused_free _) fun _ => uses_ret (iff_of_false (by decide) hdown)

end Nvme
