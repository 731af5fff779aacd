import NvmeDisk.Requests.Geometry
import NvmeDisk.Requests.Minors
import NvmeDisk.Setup.Ownership
import NvmeDisk.Setup.Ranges

/-! What `nvmedisk_initialize` reports. It returns the status of the registration, and RTEMS_SUCCESSFUL
    whatever becomes of the controller: `nvme_scan` and `nvme_controller_setup` have no result, and
    nothing looks at `ns`. Its report is right exactly if a registration call fails, or the controller
    comes up and the namespace that was asked memory for last gets it and has blocks of a page at most. -/

namespace Nvme
open Bytes BlockDev Resume

/-! ### Initialisation -/

/-- `nvme_scan`, the device being there, with the base address read from its configuration space. -/
def nvmeScan (nvmeBase : Nat) : Drv (Option Int) := nvmeControllerSetup nvmeBase

/-- `sizeof(struct nvmedisk)` on the 32-bit target. -/
abbrev sizeofNvmedisk : Nat := 8

/-- How an initialisation ends: the status it returns, none after a store through the null pointer of a
    failed `calloc`, and the result of `nvme_controller_enable` if that was called, which the code
    drops. -/
structure ScanResult where
  status : Option RtemsStatusCode
  enabled : Option Int
  deriving DecidableEq

/-- `nvmedisk_initialize`, the scan included. -/
def nvmediskInitializeScan (rtemsDiskIoInitialize : RtemsStatusCode)
    (rtemsDiskCreatePhys : Nat → Nat → Nat → Nvmedisk → RtemsStatusCode)
    (rtemsNvmediskConfiguration : List RtemsNvmediskConfig) (nvmeBase : Nat) : Drv ScanResult := do
  if rtemsDiskIoInitialize ≠ .successful then return ⟨some rtemsDiskIoInitialize, none⟩
  else
    let r ← malloc .other (rtemsNvmediskConfiguration.length * sizeofNvmedisk)
    if r = 0 ∧ rtemsNvmediskConfiguration ≠ [] then return ⟨none, none⟩
    else
      match registerDisks rtemsDiskCreatePhys 0 rtemsNvmediskConfiguration with
      | .error rc => return ⟨some rc, none⟩
      | .ok _ =>
        let enabled ← nvmeScan nvmeBase
        return ⟨some .successful, enabled⟩

/-! ### The record asked memory for last -/

/-- The address of the record that was asked memory for last, and the LBADS read for it. -/
def lastRecord : List Used → Option (Nat × Option Nat)
  | [] => none
  | .alloc .ns a :: _ => some (a, none)
  | .lbads _ v :: us => (lastRecord us).map fun r => (r.1, some v)
  | _ :: us => lastRecord us

/-- It got memory, and its blocks fit into a page. -/
def RecordFits (us : List Used) : Prop :=
  ∃ a v, lastRecord us = some (a, some v) ∧ a ≠ 0 ∧ shl1 v ≤ nvmePageSize

/-- Neither the memory of a record nor its LBADS. -/
def Used.Aside : Used → Prop
  | .alloc site _ => site ≠ .ns
  | .lbads _ _ => False
  | _ => True

/-- `ns` and the records are as the record `last` left them. -/
def Chosen : Option (Nat × Option Nat) → World → Prop
  | none, w => w.sys.ns = 0 ∧ accepted w.log = []
  | some (a, none), w => a = 0 ∧ w.sys.ns = 0
  | some (a, some v), w => a ≠ 0 ∧ w.sys.ns = a ∧
    if nvmePageSize < shl1 v then nvmePageSize < (w.sys.nsRec a).blockSize
    else a ∈ accepted w.log ∧ Accepted (w.sys.nsRec a)

/-- What was put down since `u₀` tells how `ns` and the records were left. -/
def LeftAs (u₀ : List Used) (w : World) : Prop := ∃ us, Put u₀ us w ∧ Chosen (lastRecord us) w

/-- An action that neither selects a record, nor fills one in, nor accepts one. -/
structure Unchosen (w v : World) : Prop where
  ns : v.sys.ns = w.sys.ns
  nsRec : v.sys.nsRec = w.sys.nsRec
  accepted : accepted v.log = accepted w.log
  used : v.used = w.used ∨ ∃ x : Used, x.Aside ∧ v.used = x :: w.used

variable {w v : World} {u₀ us : List Used} {last : Option (Nat × Option Nat)} {α β : Type}

theorem lastRecord_aside {x : Used} (h : x.Aside) : lastRecord (x :: us) = lastRecord us := by
  cases x with
  | alloc site a => cases site <;> first | rfl | exact absurd rfl h
  | lbads fmt v => exact h.elim
  | _ => rfl

theorem Chosen.same (h : Chosen last w) (hns : v.sys.ns = w.sys.ns) (hrec : v.sys.nsRec = w.sys.nsRec)
    (hacc : accepted v.log = accepted w.log) : Chosen last v := by
  rcases last with _ | ⟨a, _ | b⟩ <;> simp only [Chosen, hns, hrec, hacc] at h ⊢ <;> exact h

theorem LeftAs.unchosen (h : LeftAs u₀ w) (hu : Unchosen w v) : LeftAs u₀ v := by
  obtain ⟨us, hput, hchosen⟩ := h
  have hchosen := hchosen.same hu.ns hu.nsRec hu.accepted
  rcases hu.used with hv | ⟨x, hx, hv⟩
  · exact ⟨us, hv.trans hput, hchosen⟩
  · exact ⟨x :: us, hv.trans (congrArg _ hput), by rwa [lastRecord_aside hx]⟩

theorem Unchosen.refl (w : World) : Unchosen w w := ⟨rfl, rfl, rfl, .inl rfl⟩

theorem Untrusted.unchosen (h : Untrusted w v) : Unchosen w v :=
  ⟨by rw [h.sys], by rw [h.sys], h.accepted, .inl h.used⟩

theorem leftAs_stable (u₀ : List Used) : Stable Untrusted (LeftAs u₀) := fun _ _ h hr => h.unchosen hr.unchosen

theorem unchosen_malloc (size : Nat) : (malloc .other size).Does Unchosen :=
  .act fun _ => ⟨rfl, rfl, rfl, .inr ⟨_, by simp [Used.Aside], rfl⟩⟩

theorem unchosen_routine : Routine (fun _ => True) Unchosen where
  refl := .refl
  poll _ v := ⟨rfl, rfl, rfl, .inr ⟨.csts v, trivial, rfl⟩⟩
  onQueue h := ⟨by rw [h.sys], by rw [h.sys], h.unlisted.recs,
    h.used.imp_right fun ⟨c, hc⟩ => ⟨.cqe _ c, trivial, hc⟩⟩
  zalloc {site} size hsite := by
    refine .act fun w => ?_
    dsimp only
    split <;> exact ⟨rfl, rfl, rfl, .inr ⟨.alloc site _, hsite, rfl⟩⟩
  warn c := .modify fun w => ⟨rfl, rfl, (Tame.note w rfl).accepted, .inl rfl⟩
  free a := by
    refine .modify fun w => ?_
    rw [World.free]
    split
    · exact .refl w
    · exact ⟨rfl, rfl, (Tame.note w rfl).accepted, .inl rfl⟩
  setQ _ _ _ := ⟨rfl, rfl, rfl, .inl rfl⟩

/-- A change of a register or of the controller record. -/
theorem unchosen_set {f : World → World} (hf : ∀ w, (f w).sys.ns = w.sys.ns ∧ (f w).sys.nsRec = w.sys.nsRec ∧
    accepted (f w).log = accepted w.log ∧ (f w).used = w.used) : (Prog.modify f : Drv Unit).Does Unchosen :=
  .modify fun w => ⟨(hf w).1, (hf w).2.1, (hf w).2.2.1, .inl (hf w).2.2.2⟩

theorem unchosen_ensureDma : ensureDmaBuffer.Does Unchosen := by
  refine .bind (unchosen_routine.get _) fun dma => ?_
  split
  · exact .ret
  · refine .bind (unchosen_routine.zalloc _ (by decide)) fun dma => ?_
    refine .bind (unchosen_set fun _ => ⟨rfl, rfl, rfl, rfl⟩) fun _ => ?_
    split
    · exact .bind (unchosen_routine.warn _) fun _ => .ret
    · exact .ret

/-- Whatever the device does, the code ends, and as what it put down tells. -/
abbrev Settles (u₀ : List Used) (p : Drv α) : Prop :=
  ∀ w, LeftAs u₀ w → Wp Untrusted (fun _ => True) p (fun _ => LeftAs u₀) (fun _ _ => False) w

theorem settles_ret (a : α) : Settles u₀ (.ret a) := fun _ h =>
  wp_ret fun _ he => ⟨trivial, (leftAs_stable u₀).env h he⟩

theorem Settles.bind {p : Drv β} {k : β → Drv α} (hp : Settles u₀ p) (hk : ∀ b, Settles u₀ (k b)) :
    Settles u₀ (p >>= k) := fun w h => wp_seq (hp w h) (fun _ _ h => h) fun b v hv => hk b v hv

theorem settles_keeps {p : Drv α} (hp : p.Does Unchosen) : Settles u₀ p := fun _ h =>
  wp_mono (wp_keeps (leftAs_stable u₀) (hp.keeps fun _ _ hu h => h.unchosen hu) h) (fun _ _ => trivial)
    (fun _ _ _ h => h) fun _ _ _ h => h

theorem Settles.pass {p : Drv β} {k : β → Drv α} (hp : p.Does Unchosen) (hk : ∀ b, Settles u₀ (k b)) :
    Settles u₀ (p >>= k) := (settles_keeps hp).bind hk

/-- Memory for the record, its LBADS, and the record as they say. -/
theorem settles_recordNs (id nsId mdts fmt : Nat) : Settles u₀ (recordNs id nsId mdts fmt) := by
  intro w ⟨us, hput, _⟩
  -- the list and `ns` are known from action to action; nothing else is of what the record was
  let At (us : List Used) (a : Nat) : World → Prop := fun w => Put u₀ us w ∧ w.sys.ns = a
  have hAt : ∀ us a, Stable Untrusted (At us a) := fun us a x y h hr =>
    ⟨put_stable u₀ us x y h.1 hr, (congrArg (·.ns) hr.sys).trans h.2⟩
  refine wp_atom fun v hv => ⟨trivial, ?_⟩
  dsimp only
  generalize (v.sys.heap.alloc 4 sizeofNamespace .ns).1 = rec
  have hv := (put_stable u₀ us).env hput hv
  have hput : Put u₀ us (v.setHeap (v.sys.heap.alloc 4 sizeofNamespace .ns).2) := hv
  refine wp_modify_bind fun u hu => ⟨trivial, ?_⟩
  have hu := (put_stable u₀ _).env (hput.use _) hu
  have hsel : At (.alloc .ns rec :: us) rec (u.setSys { u.sys with ns := rec }) := ⟨hu, rfl⟩
  split
  · rename_i h0
    refine settles_keeps (unchosen_routine.warn _) _ ⟨_, hsel.1, ?_⟩
    exact ⟨h0, h0⟩
  rename_i h0
  refine wp_get_bind fun x hx => ⟨trivial, wp_getUsed_bind fun y hy => ⟨trivial, ?_⟩⟩
  have hy := (hAt _ _).env ((hAt _ _).env hsel hx) hy
  generalize ((identifyNsAt y.store.mem id).lbaf fmt).lbads = v
  have hread : At (.lbads fmt v :: .alloc .ns rec :: us) rec (y.use (.lbads fmt v)) := ⟨hy.1.use _, hy.2⟩
  refine wp_getUsed_bind fun z hz => ⟨trivial, ?_⟩
  have hz := (hAt _ _).env hread hz
  generalize ((identifyNsAt z.store.mem id).lbaf fmt).ms = m
  have hread : At (.ms fmt m :: .lbads fmt v :: .alloc .ns rec :: us) rec (z.use (.ms fmt m)) :=
    ⟨hz.1.use _, hz.2⟩
  dsimp only
  split
  · rename_i hlarge
    refine wp_modify_bind fun s hs => ⟨trivial, ?_⟩
    obtain ⟨hput, hns⟩ := (hAt _ _).env hread hs
    refine Settles.pass (unchosen_routine.warn _) (fun _ => settles_keeps (unchosen_routine.free _)) _
      ⟨_, hput, h0, hns, ?_⟩
    rw [if_pos hlarge]
    simpa [World.setNs] using hlarge
  · rename_i hfits
    refine wp_atom fun s hs => ⟨trivial, settles_ret () _ ?_⟩
    obtain ⟨hput, hns⟩ := (hAt _ _).env hread hs
    refine ⟨_, hput.use (.divisor (shl1 v)), h0, hns, ?_⟩
    rw [if_neg hfits]
    refine ⟨List.mem_cons_self, ?_⟩
    simp only [World.setNs, World.use_sys, World.note_sys, World.setSys_sys, Function.update_self]
    exact ⟨⟨v, rfl⟩, Nat.not_lt.mp hfits, ⟨mdts, rfl⟩⟩

theorem settles_probeNs (nsIdx mdts : Nat) : Settles u₀ (nvmeProbeNs nsIdx mdts) := by
  refine .pass (unchosen_routine.identify _ _) fun id => ?_
  split
  · exact settles_ret _
  refine .bind (.pass (unchosen_routine.get _) fun fmt => .pass (unchosen_routine.get _) fun nlbaf => ?_)
    fun _ => settles_keeps (unchosen_routine.free _)
  split
  · exact settles_ret _
  refine .pass (unchosen_routine.get _) fun nsze => ?_
  split
  · exact settles_ret _
  refine .pass unchosen_ensureDma fun dma => ?_
  split
  · exact settles_ret _
  · exact settles_recordNs _ _ _ _

theorem settles_probeLoop (mdts : Nat) : ∀ n nsIdx, Settles u₀ (probeLoop mdts n nsIdx)
  | 0, _ => settles_ret _
  | n + 1, nsIdx => .bind (settles_probeNs nsIdx mdts) fun _ => settles_probeLoop mdts n (nsIdx + 1)

theorem settles_destroyAdminQueues : Settles u₀ destroyAdminQueues :=
  settles_keeps (unchosen_routine.destroyAdminQueues trivial)

theorem settles_enableIdentified : Settles u₀ enableIdentified := by
  refine .pass (unchosen_routine.identify _ _) fun id => ?_
  split
  · exact settles_destroyAdminQueues
  refine .pass (.act fun _ => ⟨rfl, rfl, rfl, .inr ⟨.nn _, trivial, rfl⟩⟩) fun nn => ?_
  refine .pass (unchosen_set fun _ => ⟨rfl, rfl, rfl, rfl⟩) fun _ => .pass (unchosen_routine.get _) fun mdts => ?_
  refine .pass (unchosen_routine.free _) fun _ => ?_
  split
  · exact settles_destroyAdminQueues
  refine .pass (unchosen_routine.createIoQueues trivial) fun rc => ?_
  split
  · exact settles_destroyAdminQueues
  · exact .bind (settles_probeLoop mdts nn 0) fun _ => settles_ret _

theorem settles_controllerEnable : Settles u₀ nvmeControllerEnable := by
  have hset : ∀ {f : World → World} {k : Unit → Drv Int}, (∀ w, (f w).sys.ns = w.sys.ns ∧
      (f w).sys.nsRec = w.sys.nsRec ∧ accepted (f w).log = accepted w.log ∧ (f w).used = w.used) →
      Settles u₀ (k ()) → Settles u₀ (Prog.modify f >>= k) := fun hf hk => .pass (unchosen_set hf) fun _ => hk
  refine hset (fun _ => ⟨rfl, rfl, rfl, rfl⟩) (.pass (unchosen_routine.waitCstsRdy 0) fun rc => ?_)
  split
  · exact settles_ret _
  refine .pass (unchosen_routine.get _) fun cap => hset (fun _ => ⟨rfl, rfl, rfl, rfl⟩) ?_
  refine .pass (unchosen_routine.initCq trivial _ _) fun rc => ?_
  split
  · exact settles_ret _
  refine .pass (unchosen_routine.initSq trivial _ _) fun rc => ?_
  split
  · exact .pass (unchosen_routine.destroyCq trivial) fun _ => settles_ret _
  refine hset (fun _ => ⟨rfl, rfl, rfl, rfl⟩) (hset (fun _ => ⟨rfl, rfl, rfl, rfl⟩) ?_)
  refine hset (fun _ => ⟨rfl, rfl, rfl, rfl⟩) (hset (fun _ => ⟨rfl, rfl, rfl, rfl⟩) ?_)
  refine .pass (unchosen_routine.waitCstsRdy 1) fun rc => ?_
  split
  · exact settles_destroyAdminQueues
  · exact settles_enableIdentified

theorem settles_controllerSetup (nvmeBase : Nat) : Settles u₀ (nvmeControllerSetup nvmeBase) := by
  unfold nvmeControllerSetup
  split
  · exact settles_ret _
  refine .pass (unchosen_routine.get _) fun cap => ?_
  split
  · exact settles_ret _
  refine .pass (unchosen_routine.zalloc _ (by decide)) fun ctrl => ?_
  split
  · exact .pass (unchosen_routine.warn _) fun _ => settles_ret _
  refine .pass (unchosen_set fun _ => ⟨rfl, rfl, rfl, rfl⟩) fun _ => .bind settles_controllerEnable fun rc => ?_
  split
  · exact .pass (unchosen_routine.free _) fun _ => settles_ret _
  · exact settles_ret _

/-! ### The report -/

section Report

variable (io : RtemsStatusCode) (create : Nat → Nat → Nat → Nvmedisk → RtemsStatusCode)
  (conf : List RtemsNvmediskConfig)

/-- A registration call fails. -/
def Unregistered (us : List Used) : Prop :=
  io ≠ .successful ∨ (∃ a, a ≠ 0 ∧ .alloc .other a ∈ us) ∧ ∃ rc, registerDisks create 0 conf = .error rc

end Report

/-- The disk can be used: the controller was enabled and `ns` points to an accepted namespace. -/
structure Usable (enabled : Option Int) (w : World) : Prop where
  enabled : enabled = some 0
  ns : w.sys.ns ≠ 0
  accepted : w.sys.ns ∈ accepted w.log
  record : Accepted (w.sys.nsRec w.sys.ns)

/-- The status says whether the disk can be used. -/
structure Reports (r : ScanResult) (w : World) : Prop where
  success : r.status = some .successful → Usable r.enabled w
  failure : ¬ Usable r.enabled w → ∃ rc, r.status = some rc ∧ rc ≠ .successful

variable {io : RtemsStatusCode} {create : Nat → Nat → Nat → Nvmedisk → RtemsStatusCode}
  {conf : List RtemsNvmediskConfig} {nvmeBase : Nat} {r : ScanResult}

theorem registerDisks_error : ∀ {conf : List RtemsNvmediskConfig} {i : Nat} {rc : RtemsStatusCode},
    registerDisks create i conf = .error rc → rc ≠ .successful
  | [], _, _, h => by cases h
  | c :: conf, i, rc, h => by
    rw [registerDisks] at h
    split at h
    · cases hrest : registerDisks create (i + 1) conf with
      | error e =>
        rw [hrest] at h
        cases h
        exact registerDisks_error hrest
      | ok rest => rw [hrest] at h; cases h
    · rename_i hfail
      cases h
      exact hfail

theorem settles_nvmediskInitialize : Settles u₀ (nvmediskInitializeScan io create conf nvmeBase) := by
  unfold nvmediskInitializeScan
  split
  · exact settles_ret _
  refine .pass (unchosen_malloc _) fun a => ?_
  split
  · exact settles_ret _
  cases registerDisks create 0 conf with
  | error rc => exact settles_ret _
  | ok disks => exact .bind (settles_controllerSetup nvmeBase) fun enabled => settles_ret _

/-- How an initialisation ends: refused, without memory for the disks, or with the set-up done. -/
inductive EndsAs (io : RtemsStatusCode) (create : Nat → Nat → Nat → Nvmedisk → RtemsStatusCode)
    (conf : List RtemsNvmediskConfig) : ScanResult → List Used → Prop where
  | refused {rc : RtemsStatusCode} {us : List Used} : Unregistered io create conf us → rc ≠ .successful →
      EndsAs io create conf ⟨some rc, none⟩ us
  | noMemory {us : List Used} : ¬ Unregistered io create conf us → ¬ CameUp us →
      EndsAs io create conf ⟨none, none⟩ us
  | scanned {enabled : Option Int} {us : List Used} : ¬ Unregistered io create conf us →
      (enabled = some 0 ↔ CameUp us) → EndsAs io create conf ⟨some .successful, enabled⟩ us

theorem uses_nvmediskInitialize :
    Uses u₀ [] (nvmediskInitializeScan io create conf nvmeBase) (EndsAs io create conf) := by
  unfold nvmediskInitializeScan
  split
  · rename_i hio
    exact uses_ret (.refused (.inl hio) hio)
  rename_i hio
  refine (uses_malloc _ _).bind ?_
  rintro a _ rfl
  have hno : NoSq .io [.alloc .other a] := NoSq.alloc (fun _ hm => by cases hm) (by decide) a
  split
  · rename_i hnull
    refine uses_ret (.noMemory (fun h => ?_) hno.uncreated.not_up)
    obtain ⟨⟨b, hb, hm⟩, _⟩ := h.resolve_left hio
    obtain rfl : b = a := by simpa using hm
    exact hb hnull.1
  rename_i hgot
  cases hreg : registerDisks create 0 conf with
  | error rc =>
    have ha : a ≠ 0 := fun h0 => hgot ⟨h0, by rintro rfl; cases hreg⟩
    exact uses_ret (.refused (.inr ⟨⟨a, ha, List.mem_cons_self⟩, rc, hreg⟩) (registerDisks_error hreg))
  | ok disks =>
    refine (uses_controllerSetup hno nvmeBase).bind fun enabled us' hup => uses_ret (.scanned (fun h => ?_) hup)
    obtain ⟨_, rc, hrc⟩ := h.resolve_left hio
    rw [hreg] at hrc
    cases hrc

theorem Chosen.usable_iff (h : Chosen (lastRecord us) w) {enabled : Option Int}
    (hup : enabled = some 0 ↔ CameUp us) : Usable enabled w ↔ CameUp us ∧ RecordFits us := by
  constructor
  · rintro ⟨hen, hns, hacc, hrec⟩
    refine ⟨hup.mp hen, ?_⟩
    rcases hlast : lastRecord us with _ | ⟨a, _ | v⟩ <;> rw [hlast] at h
    · rw [h.2] at hacc
      cases hacc
    · exact absurd h.2 hns
    · obtain ⟨ha, rfl, hfill⟩ := h
      refine ⟨_, v, hlast, ha, ?_⟩
      by_contra hlarge
      rw [if_pos (Nat.not_le.mp hlarge)] at hfill
      exact absurd hrec.fits (Nat.not_le.mpr hfill)
  · rintro ⟨hcame, a, v, hlast, ha, hfits⟩
    rw [hlast] at h
    obtain ⟨_, rfl, hfill⟩ := h
    rw [if_neg (Nat.not_lt.mpr hfits)] at hfill
    exact ⟨hup.mpr hcame, ha, hfill.1, hfill.2⟩

/-- REPORT RULE: the status is right exactly if a registration call fails, or the controller comes up and
    the record that was asked memory for last gets it and has blocks of a page at most. -/
theorem reports_iff (hns : w.sys.ns = 0) (hnone : accepted w.log = [])
    (hrun : Steps Untrusted w (nvmediskInitializeScan io create conf nvmeBase) v (.ret r))
    (hus : v.used = us ++ w.used) :
    Reports r v ↔ Unregistered io create conf us ∨ (CameUp us ∧ RecordFits us) := by
  obtain ⟨us₁, hput₁, hchosen⟩ := (settles_nvmediskInitialize w ⟨[], rfl, hns, hnone⟩ v _ hrun).2
  obtain ⟨us₂, hend, hput₂⟩ := (uses_nvmediskInitialize w rfl v _ hrun).2
  obtain rfl : us₁ = us := List.append_cancel_right (hput₁.symm.trans hus)
  obtain rfl : us₂ = us₁ := List.append_cancel_right (hput₂.symm.trans hus)
  cases hend with
  | refused href hrc =>
    exact iff_of_true ⟨fun h => absurd (Option.some.inj h) hrc, fun _ => ⟨_, rfl, hrc⟩⟩ (.inl href)
  | noMemory href hdown =>
    refine iff_of_false (fun h => ?_) fun h => h.elim href fun hup => hdown hup.1
    obtain ⟨rc, hrc, _⟩ := h.failure fun hu => by cases hu.enabled
    cases hrc
  | scanned href hup =>
    have husable := hchosen.usable_iff hup
    constructor
    · exact fun h => .inr (husable.mp (h.success rfl))
    · intro h
      have hu := husable.mpr (h.resolve_left href)
      exact ⟨fun _ => hu, fun hno => absurd hu hno⟩

/-! ### A disk without a controller -/

/-- One disk of 8 blocks; the memory for it comes before that for the controller. -/
def oneEntry : List RtemsNvmediskConfig := [⟨512, 8⟩]

def scanStart : World :=
  bareWorld (nvmeCapCssNvme + 0x1000000 + 255) fun n =>
    some (if n = 0 then 0x8000 else sampleBlock (n - 1))

/-- The controller reports a fatal error once CC.EN is set. -/
def fatalScan : World × Drv ScanResult :=
  follow deviceAct (driverActs 21 ++ [some (.csts 2)] ++ driverActs 10) scanStart
    (nvmediskInitializeScan .successful (fun _ _ _ _ => .successful) oneEntry 1)

/-- RTEMS_SUCCESSFUL is returned, `nvme_controller_enable` failed and `ns` is null. -/
theorem fatal_reported_success :
    Steps Untrusted scanStart
      (nvmediskInitializeScan .successful (fun _ _ _ _ => .successful) oneEntry 1) fatalScan.1
      (.ret ⟨some .successful, some (-1)⟩) ∧
    fatalScan.1.sys.ns = 0 ∧ accepted fatalScan.1.log = [] ∧
    ¬ Reports ⟨some .successful, some (-1)⟩ fatalScan.1 := by
  have hret : fatalScan.2.value? = some ⟨some .successful, some (-1)⟩ := by decide +kernel
  have hns : fatalScan.1.sys.ns = 0 := by decide +kernel
  exact ⟨follow_ret hret fun _ _ h => hostile_untrusted (deviceAct_hostile h), hns, by decide +kernel,
    fun hr => (hr.success rfl).ns hns⟩

/-- The controller comes up with one namespace. -/
def readyScan : World × Drv ScanResult :=
  follow deviceAct (none :: setupScript) scanStart
    (nvmediskInitializeScan .successful (fun _ _ _ _ => .successful) oneEntry 1)

theorem reports_iff_sample :
    Reports ⟨some .successful, some 0⟩ readyScan.1 ∧ CameUp readyScan.1.used ∧
      RecordFits readyScan.1.used := by
  have hret : readyScan.2.value? = some ⟨some .successful, some 0⟩ := by decide +kernel
  have hrun := follow_ret hret fun _ _ h => hostile_untrusted (deviceAct_hostile h)
  have husable : Usable (some 0) readyScan.1 :=
    ⟨rfl, by decide +kernel, by decide +kernel, ⟨9, by decide +kernel⟩, by decide +kernel, 0, by decide +kernel⟩
  have hreports : Reports ⟨some .successful, some 0⟩ readyScan.1 :=
    ⟨fun _ => husable, fun hno => absurd husable hno⟩
  refine ⟨hreports, ((reports_iff rfl rfl hrun (List.append_nil _).symm).mp hreports).resolve_left ?_⟩
  rintro (hio | ⟨_, rc, hrc⟩)
  · exact hio rfl
  · cases hrc

end Nvme
