import NvmeDisk.Model.Setup
import NvmeDisk.Queue.Command

/-! The probe loop against a controller that follows NVMe, one iteration at a time. While Identify is
    under way anything may come of it; once it has returned a buffer the controller has no work left,
    so the rest of the iteration runs undisturbed and is a function of the data in the buffer and of
    the heap. -/

namespace Nvme
open Ring Resume Bytes BlockDev Mheap

variable {mayFail : Nat → Bool} {L C : Nat} {w v u : World} {D : List NvmeCqe} {e : NvmeSqe}

/-! ### Between two iterations -/

/-- The I/O queue is not in use, the admin queue is idle or has a command outstanding that was given
    up on. -/
structure Probeable (L C : Nat) (w : World) : Prop where
  io : (w.q .io).ctl.NoWork
  admin : (∃ D, Idle L C D (w.q .admin)) ∨ ∃ D e s, Outstanding .admin L C D e s (w.q .admin)

theorem Probeable.calm (h : Probeable L C w) : Calm .admin w := by
  intro j hj
  cases j with
  | admin => exact absurd rfl hj
  | io => exact h.io

/-- The world is kept but for the queues and memory: no driver data changed. -/
theorem Probeable.env [Fact (Pow2 C)] (h : Probeable L C w) (he : Env (Nvmec mayFail) w v) :
    Probeable L C v ∧ v.sys = w.sys := by
  induction he with
  | refl => exact ⟨h, rfl⟩
  | tail _ hr ih =>
    obtain ⟨hv, hsys⟩ := ih
    obtain ⟨m, hm⟩ := hr
    rcases hv.admin with ⟨D, hidle⟩ | ⟨D, e, s, hout⟩
    · exact absurd hv.calm (CtlQueue.NoWork.move hidle.noWork hm).busy
    · rcases hout.move hm with hel | ⟨s', hout', hp⟩
      · exact absurd hv.calm hel.busy
      · have hio := hp.other .io (by simp)
        exact ⟨⟨by rw [hio]; exact hv.io, .inr ⟨D, e, s', hout'⟩⟩, hp.sys.trans hsys⟩

/-- Driver actions that leave the queues alone. -/
theorem Probeable.same (h : Probeable L C w) (hq : v.q = w.q) : Probeable L C v :=
  ⟨by rw [hq]; exact h.io, by rw [hq]; exact h.admin⟩

theorem rested_of_idle (hio : (w.q .io).ctl.NoWork) (hadmin : Idle L C D (w.q .admin)) : Rested w := by
  intro i
  cases i with
  | admin => exact hadmin.noWork
  | io => exact hio

/-! ### Identify -/

/-- What Identify leaves behind: nothing, or a buffer on top of the live blocks and a controller
    without work. -/
structure Identified (L C : Nat) (w : World) (id : Nat) (v : World) : Prop where
  ready : Probeable L C v
  ns : v.sys.ns = w.sys.ns
  nsRec : v.sys.nsRec = w.sys.nsRec
  none : id = 0 → v.sys.heap.live = w.sys.heap.live
  buffer : id ≠ 0 → Rested v ∧ ∃ b : Block Site, b.addr = id ∧ b.size = 4096 ∧
    v.sys.heap.live = b :: w.sys.heap.live

theorem Identified.env [Fact (Pow2 C)] {id : Nat} (h : Identified L C w id v)
    (he : Env (Nvmec mayFail) v u) :
    Identified L C w id u := by
  obtain ⟨hready, hsys⟩ := h.ready.env he
  exact {
    ready := hready
    ns := by rw [hsys]; exact h.ns
    nsRec := by rw [hsys]; exact h.nsRec
    none := by rw [hsys]; exact h.none
    buffer := fun hid => by
      rw [(h.buffer hid).1.quiet.env he]
      exact h.buffer hid }

/-- A world with the Identify buffer `b` allocated since `w`. -/
structure Buffered (L C : Nat) (w : World) (b : Block Site) (v : World) : Prop where
  ready : Probeable L C v
  ns : v.sys.ns = w.sys.ns
  nsRec : v.sys.nsRec = w.sys.nsRec
  size : b.size = 4096
  live : v.sys.heap.live = b :: w.sys.heap.live

variable {b : Block Site}

theorem Buffered.env [Fact (Pow2 C)] (h : Buffered L C w b v) (he : Env (Nvmec mayFail) v u) :
    Buffered L C w b u := by
  obtain ⟨hready, hsys⟩ := h.ready.env he
  exact { h with
    ready := hready
    ns := by rw [hsys]; exact h.ns
    nsRec := by rw [hsys]; exact h.nsRec
    live := by rw [hsys]; exact h.live }

/-- The buffer is given back. -/
theorem Buffered.free (h : Buffered L C w b v) (h0 : b.addr ≠ 0) :
    Identified L C w 0 (v.free b.addr) := by
  rw [World.free, if_neg h0]
  exact {
    ready := h.ready.same rfl
    ns := h.ns
    nsRec := h.nsRec
    none := fun _ => Heap.free_top h.live
    buffer := fun h => absurd rfl h }

theorem Buffered.wp_giveBack [Fact (Pow2 C)] (h : Buffered L C w b v) (h0 : b.addr ≠ 0) :
    Wp (Nvmec mayFail) (fun _ => True) (do Nvme.free b.addr; return 0) (Identified L C w)
      (fun _ _ => False) v :=
  wp_modify_bind fun _ he => ⟨trivial, wp_ret fun _ hu => ⟨trivial, ((h.env he).free h0).env hu⟩⟩

/-- The command's end: the buffer with the answer in it, or a command left behind. -/
theorem Buffered.finished (h : Buffered L C w b v) {w₀ : World} {sf : Nat}
    (hs : Submitted .admin L C D e v w₀) (ht : Took mayFail w₀ .admin L C D e sf u) :
    Buffered L C w b u ∧ Rested u := by
  obtain ⟨l, l', _, _, hf⟩ := ht
  have hcalm := h.ready.calm
  have hio : u.q .io = v.q .io :=
    ((hf.calm (hs.calmWorld hcalm)).1 .io (by simp)).trans ((hs.calm hcalm).1 .io (by simp))
  have hsys : u.sys = v.sys := hf.sys.trans hs.sys
  have hwork : (u.q .io).ctl.NoWork := by rw [hio]; exact h.ready.io
  refine ⟨?_, rested_of_idle hwork hf.idle⟩
  exact { h with
    ready := ⟨hwork, .inl ⟨_, hf.idle⟩⟩
    ns := by rw [hsys]; exact h.ns
    nsRec := by rw [hsys]; exact h.nsRec
    live := by rw [hsys]; exact h.live }

theorem Buffered.gaveUp (h : Buffered L C w b v) {w₀ : World}
    (hs : Submitted .admin L C D e v w₀) (hg : GaveUp mayFail w₀ .admin L C D e u) :
    Buffered L C w b u := by
  obtain ⟨s, l, _, hu⟩ := hg
  have hcalm := h.ready.calm
  have hio : u.q .io = v.q .io :=
    ((hu.calm (hs.calmWorld hcalm)).1 .io (by simp)).trans ((hs.calm hcalm).1 .io (by simp))
  have hsys : u.sys = v.sys := hu.sys.trans hs.sys
  exact { h with
    ready := ⟨by rw [hio]; exact h.ready.io, .inr ⟨D, e, s, hu.out⟩⟩
    ns := by rw [hsys]; exact h.ns
    nsRec := by rw [hsys]; exact h.nsRec
    live := by rw [hsys]; exact h.live }

/-- The Identify buffer is allocated, or there is no room for it. -/
theorem Probeable.wp_alloc [Fact (Pow2 C)] (h : Probeable L C w) :
    Wp (Nvmec mayFail) (fun _ => True) (zallocPageAligned .identify 4096)
      (fun a v => (a = 0 ∧ Identified L C w 0 v) ∨
        ∃ b : Block Site, b.addr = a ∧ a ≠ 0 ∧ Buffered L C w b v) (fun _ _ => False) w := by
  refine wp_atom fun v he => ⟨trivial, ?_⟩
  obtain ⟨hv, hsys⟩ := h.env he
  have hns : v.sys.ns = w.sys.ns := congrArg Sys.ns hsys
  have hrec : v.sys.nsRec = w.sys.nsRec := congrArg Sys.nsRec hsys
  rcases v.sys.heap.alloc_cases nvmePageSize 4096 .identify with ⟨h0, hl⟩ | ⟨b, hb, hb0, hsize, _, hl, _⟩
  · have hnone : Identified L C w 0
        ((v.setHeap (v.sys.heap.alloc nvmePageSize 4096 .identify).2).use (.alloc .identify 0)) :=
      ⟨hv.same rfl, hns, hrec, fun _ => by rw [← hsys]; exact hl,
        fun h => absurd rfl h⟩
    dsimp only
    rw [if_pos h0, h0]
    exact wp_ret fun u hu => ⟨trivial, .inl ⟨rfl, hnone.env hu⟩⟩
  · have hbuf : ∀ x m, Buffered L C w b
        (((v.setHeap (v.sys.heap.alloc nvmePageSize 4096 .identify).2).use x).setMem m) := fun x m =>
      ⟨hv.same rfl, hns, hrec, hsize, by rw [← hsys]; exact hl⟩
    dsimp only
    rw [if_neg (by rw [hb]; exact hb0)]
    refine wp_ret fun u hu => ⟨trivial, .inr ⟨b, hb.symm, by rw [hb]; exact hb0, (hbuf _ _).env hu⟩⟩

/-- IDENTIFY RULE: whatever becomes of the command. -/
theorem wp_adminIdentify [Fact (Pow2 L)] [Fact (Pow2 C)] (cns nsid : Nat) (h : Probeable L C w) :
    Wp (Nvmec mayFail) (fun _ => True) (nvmeAdminIdentify cns nsid) (Identified L C w)
      (fun _ _ => False) w := by
  refine wp_seq h.wp_alloc (fun _ _ h => h) ?_
  rintro a v (⟨rfl, hnone⟩ | ⟨b, rfl, hb0, hbuf⟩)
  · refine wp_modify_bind fun u hu => ⟨trivial, wp_ret fun x hx => ⟨trivial, ?_⟩⟩
    have hu' := hnone.env hu
    have hwarn : Identified L C w 0 (u.note (.warn .internalerror)) :=
      ⟨hu'.ready.same rfl, hu'.ns, hu'.nsRec, hu'.none, fun h => absurd rfl h⟩
    exact hwarn.env hx
  · rw [if_neg hb0]
    rcases hbuf.ready.admin with ⟨D, hidle⟩ | ⟨D, e, s, hout⟩
    · refine wp_command hidle (fun _ => rfl) rfl (fun _ _ => trivial) ?_
      rintro c u ⟨w₀, hs, ⟨sf, rfl, ht⟩ | ⟨rfl, hg⟩⟩
      · obtain ⟨hu, hrest⟩ := hbuf.finished hs ht
        split
        · refine wp_ret_quiet hrest.quiet trivial ⟨hu.ready, hu.ns, hu.nsRec, fun h => absurd h hb0, ?_⟩
          exact fun _ => ⟨hrest, b, rfl, hu.size, hu.live⟩
        · exact hu.wp_giveBack hb0
      · rw [if_neg (by simp)]
        exact (hbuf.gaveUp hs hg).wp_giveBack hb0
    · -- a command given up on is in the way
      refine wp_atom fun u hu => ⟨trivial, ?_⟩
      obtain ⟨D', e', s', hout'⟩ : ∃ D e s, Outstanding .admin L C D e s (u.q .admin) := by
        refine Stable.env (R := Nvmec mayFail)
          (P := fun u => ∃ D e s, Outstanding .admin L C D e s (u.q .admin)) ?_ ⟨D, e, s, hout⟩ hu
        rintro w v ⟨D, e, s, h⟩ ⟨m, hm⟩
        rcases h.move hm with hel | ⟨s', h', _⟩
        · exact ⟨D, e, s, by rw [hel.q]; exact h⟩
        · exact ⟨D, e, s', h'⟩
      have hself : u.setQ .admin (u.q .admin) = u := by simp [World.setQ]
      simp only [hout'.getNextSqe, hself]
      refine wp_modify_bind fun x hx => ⟨trivial, ?_⟩
      have hx' := (hbuf.env hu).env hx
      have hwarn : Buffered L C w b (x.note (.warn .internalerror)) :=
        ⟨hx'.ready.same rfl, hx'.ns, hx'.nsRec, hx'.size, hx'.live⟩
      exact hwarn.wp_giveBack hb0

/-! ### Identify data -/

namespace NvmeIdentifyNs

variable (d : NvmeIdentifyNs)

/-- The format in use. -/
def format : Nat := d.flbas &&& 0xF

def blockSize : Nat := shl1 (d.lbaf d.format).lbads

/-- The checks made before a record is allocated. -/
structure Formatted : Prop where
  range : d.format ≤ d.nlbaf
  size : d.nsze ≠ 0

/-- All checks of `nvme_probe_ns`. -/
structure Passes : Prop extends Formatted d where
  fits : d.blockSize ≤ nvmePageSize

/-- The record of the namespace. -/
def record (nsId mdts : Nat) : NvmeNamespace :=
  ⟨nsId, d.nsze, d.blockSize, (d.lbaf d.format).ms, maxReqSize mdts d.blockSize⟩

end NvmeIdentifyNs

/-- What the code reads of the data at `id`, all of it below 4096. -/
structure SameNsData (m m' : Mem) (id : Nat) : Prop where
  nsze : (identifyNsAt m' id).nsze = (identifyNsAt m id).nsze
  lbaf : ∀ k < 16, (identifyNsAt m' id).lbaf k = (identifyNsAt m id).lbaf k

theorem sameNsData {m m' : Mem} {id : Nat} (h : ∀ o < 4096, m' (id + o) = m (id + o)) :
    SameNsData m m' id := by
  have hload : ∀ o n, o + n ≤ 4096 → load m' (id + o) n = load m (id + o) n := by
    intro o n hn
    refine load_congr n _ fun k hk => ?_
    rw [Nat.add_assoc]
    exact h _ (by omega)
  constructor
  · exact hload 0 8 (by omega)
  · intro k hk
    simp only [identifyNsAt, Nat.add_assoc]
    rw [hload _ 2 (by omega), hload _ 1 (by omega)]

/-! ### The rest of an iteration -/

/-- The world once the bounce page is there, or could not be allocated. -/
def afterPage (w : World) : World := (ensureDmaBuffer.exec w).2

/-- Where the record of the namespace comes to lie, 0 if there is no room. -/
def recordAt (w : World) : Nat := ((afterPage w).sys.heap.alloc 4 sizeofNamespace .ns).1

/-- What making sure of the bounce page changes: at most one block more, and its memory. -/
structure Paged (w v : World) : Prop where
  q : v.q = w.q
  ns : v.sys.ns = w.sys.ns
  nsRec : v.sys.nsRec = w.sys.nsRec
  live : ∀ c ∈ w.sys.heap.live, c ∈ v.sys.heap.live
  mem : ∀ c ∈ w.sys.heap.live, ∀ o < c.size, v.store.mem (c.addr + o) = w.store.mem (c.addr + o)

theorem exec_ensureDma (w : World) :
    ensureDmaBuffer.exec w = (.ok (afterPage w).sys.nvmeDmaBuffer, afterPage w) ∧
      Paged w (afterPage w) := by
  have hexec : ∀ {a v}, ensureDmaBuffer.exec w = (.ok a, v) → v.sys.nvmeDmaBuffer = a → Paged w v →
      ensureDmaBuffer.exec w = (.ok (afterPage w).sys.nvmeDmaBuffer, afterPage w) ∧
        Paged w (afterPage w) := by
    intro a v h ha hp
    have hv : afterPage w = v := congrArg Prod.snd h
    rw [hv, ha]
    exact ⟨h, hp⟩
  by_cases hd : w.sys.nvmeDmaBuffer = 0
  · rcases w.sys.heap.alloc_cases nvmePageSize nvmePageSize .dma with
      ⟨h0, hl⟩ | ⟨b, hb, hb0, hsize, _, hl, hapart⟩
    · refine hexec (a := 0) (v := _) (by
        simp only [ensureDmaBuffer, dmaBuffer, exec_get_bind, hd, ne_eq, not_true_eq_false, if_false,
          zallocPageAligned, exec_act_bind, h0, if_true, exec_modify_bind, warn, note]
        rfl) rfl ?_
      exact ⟨rfl, rfl, rfl, fun c hc => by rw [← hl] at hc; exact hc, fun _ _ _ _ => rfl⟩
    · refine hexec (a := b.addr) (v := _) (by
        simp only [ensureDmaBuffer, dmaBuffer, exec_get_bind, hd, ne_eq, not_true_eq_false, if_false,
          zallocPageAligned, exec_act_bind, hb, if_neg hb0, exec_modify_bind]
        rfl) rfl ?_
      refine ⟨rfl, rfl, rfl, fun c hc => hl ▸ List.mem_cons_of_mem _ hc, fun c hc o ho => ?_⟩
      have hout := hapart c hc
      change fill w.store.mem b.addr nvmePageSize (fun _ => 0) (c.addr + o) = w.store.mem (c.addr + o)
      exact fill_out (by omega)
  · refine hexec (a := w.sys.nvmeDmaBuffer) (v := w) ?_ rfl
      ⟨rfl, rfl, rfl, fun _ h => h, fun _ _ _ _ => rfl⟩
    simp only [ensureDmaBuffer, dmaBuffer, exec_get_bind, ne_eq, hd, not_false_eq_true, if_true,
      exec_pure]

/-- The namespace and the live blocks are kept, but for a block at `id`. -/
structure NsKept (id : Nat) (w v : World) : Prop where
  q : v.q = w.q
  ns : v.sys.ns = w.sys.ns
  nsRec : v.sys.nsRec = w.sys.nsRec
  live : ∀ c ∈ w.sys.heap.live, c.addr ≠ id → c ∈ v.sys.heap.live

/-- How the rest of an iteration ends, with Identify data `d` in the buffer at `id`. -/
inductive Rest (d : NvmeIdentifyNs) (id nsId mdts : Nat) (w v : World) : Prop where
  | rejected : ¬ d.Formatted → NsKept id w v → Rest d id nsId mdts w v
  | noPage : (afterPage w).sys.nvmeDmaBuffer = 0 → NsKept id w v → Rest d id nsId mdts w v
  | noRecord : d.Formatted → (afterPage w).sys.nvmeDmaBuffer ≠ 0 → recordAt w = 0 →
      v.q = w.q → v.sys.ns = 0 → Rest d id nsId mdts w v
  | tooLarge : d.Formatted → (afterPage w).sys.nvmeDmaBuffer ≠ 0 → recordAt w ≠ 0 →
      ¬ d.blockSize ≤ nvmePageSize → v.q = w.q → v.sys.ns = recordAt w →
      (∀ c ∈ v.sys.heap.live, c.addr ≠ recordAt w) → Rest d id nsId mdts w v
  | accepted : d.Passes → (afterPage w).sys.nvmeDmaBuffer ≠ 0 → recordAt w ≠ 0 → v.q = w.q →
      v.sys.ns = recordAt w → v.sys.nsRec (recordAt w) = d.record nsId mdts →
      (∃ c ∈ v.sys.heap.live, c.addr = recordAt w ∧ c.site = .ns) → Rest d id nsId mdts w v

/-- Freeing the buffer. -/
theorem live_free {c : Block Site} {id : Nat} (hc : c ∈ w.sys.heap.live) (hne : c.addr ≠ id) :
    c ∈ (w.free id).sys.heap.live := by
  rw [World.free]
  split
  · exact hc
  · change c ∈ (w.sys.heap.free id).live
    rw [Heap.free_live]
    exact List.mem_filter.mpr ⟨hc, by simpa using hne⟩

theorem free_kept (id : Nat) (w : World) : NsKept id w (w.free id) := by
  refine ⟨?_, ?_, ?_, fun c => live_free⟩ <;>
  · rw [World.free]
    split <;> rfl

theorem NsKept.of_paged (h : Paged w v) (id : Nat) : NsKept id w (v.free id) where
  q := (free_kept id v).q.trans h.q
  ns := (free_kept id v).ns.trans h.ns
  nsRec := (free_kept id v).nsRec.trans h.nsRec
  live c hc hne := live_free (h.live c hc) hne

/-- The world in which `recordNs` has its record at `a` and made it the global one. -/
def World.chosen (x : World) (a : Nat) : World :=
  let x := (x.setHeap (x.sys.heap.alloc 4 sizeofNamespace .ns).2).use (.alloc .ns a)
  x.setSys { x.sys with ns := a }

/-- The two fields of format `fmt` were read. -/
def World.seen (x : World) (fmt : Nat) (f : NvmeLbaFormat) : World :=
  (x.use (.lbads fmt f.lbads)).use (.ms fmt f.ms)

section Fields

variable (x : World) (a rec fmt : Nat) (ns : NvmeNamespace) (f : NvmeLbaFormat)

@[simp] theorem seen_q : (x.seen fmt f).q = x.q := rfl
@[simp] theorem seen_sys : (x.seen fmt f).sys = x.sys := rfl
@[simp] theorem chosen_q : (x.chosen a).q = x.q := rfl
@[simp] theorem chosen_ns : (x.chosen a).sys.ns = a := rfl
@[simp] theorem setNs_q : (x.setNs rec ns).q = x.q := rfl
@[simp] theorem setNs_ns : (x.setNs rec ns).sys.ns = x.sys.ns := rfl
@[simp] theorem setNs_nsRec : (x.setNs rec ns).sys.nsRec rec = ns := Function.update_self ..
@[simp] theorem free_q : (x.free a).q = x.q := (free_kept a x).q
@[simp] theorem free_ns : (x.free a).sys.ns = x.sys.ns := (free_kept a x).ns
@[simp] theorem free_nsRec : (x.free a).sys.nsRec = x.sys.nsRec := (free_kept a x).nsRec

end Fields

/-- `recordNs` run undisturbed. -/
theorem exec_recordNs (x : World) (id nsId mdts fmt : Nat) {a : Nat}
    (ha : (x.sys.heap.alloc 4 sizeofNamespace .ns).1 = a) :
    let d := identifyNsAt x.store.mem id
    let blockSize := shl1 (d.lbaf fmt).lbads
    (recordNs id nsId mdts fmt).exec x = (.ok (),
      if a = 0 then (x.chosen a).note (.warn .noalloc)
      else if nvmePageSize < blockSize then
        ((((x.chosen a).seen fmt (d.lbaf fmt)).setNs a
          ⟨nsId, d.nsze, blockSize, (d.lbaf fmt).ms, 0⟩).note (.warn .internalerror)).free a
      else ((((x.chosen a).seen fmt (d.lbaf fmt)).setNs a ⟨nsId, d.nsze, blockSize, (d.lbaf fmt).ms,
        maxReqSize mdts blockSize⟩).note (.accepted nsId a)).use (.divisor blockSize)) := by
  subst ha
  dsimp only
  simp only [recordNs, malloc, exec_act_bind, exec_modify_bind]
  split
  · rfl
  · by_cases hlarge : nvmePageSize < shl1 ((identifyNsAt x.store.mem id).lbaf fmt).lbads
    all_goals
      simp only [idNs, idLbads, idMs, getUsed, exec_get_bind, exec_act_bind, World.use_store,
        World.setSys_store, setHeap_store, hlarge, if_true, if_false]
      rfl

/-- A record that is allocated lies at no other live block's address. -/
theorem chosen_live (x : World) (h0 : (x.sys.heap.alloc 4 sizeofNamespace .ns).1 ≠ 0) :
    ∃ c : Block Site, c.addr = (x.sys.heap.alloc 4 sizeofNamespace .ns).1 ∧ c.site = .ns ∧
      (x.chosen c.addr).sys.heap.live = c :: x.sys.heap.live ∧
      ∀ b ∈ x.sys.heap.live, b.addr ≠ c.addr := by
  rcases x.sys.heap.alloc_cases 4 sizeofNamespace .ns with
    ⟨h, _⟩ | ⟨c, hc, hc0, hsize, hsite, hl, hapart⟩
  · exact absurd h h0
  · refine ⟨c, hc.symm, hsite, hl, fun b hb heq => ?_⟩
    have hout := hapart b hb
    have hpos := (x.sys.heap.fresh b hb).2.1
    have : 0 < sizeofNamespace := by decide
    omega

theorem free_live_sub {c : Block Site} {a : Nat} (h : c ∈ (w.free a).sys.heap.live) :
    c ∈ w.sys.heap.live ∧ c.addr ≠ a := by
  rw [World.free] at h
  split at h
  · rename_i ha
    exact ⟨h, ha ▸ (w.sys.heap.fresh c h).2.2⟩
  · change c ∈ (w.sys.heap.free a).live at h
    rw [Heap.free_live] at h
    exact ⟨(List.mem_filter.mp h).1, by simpa using (List.mem_filter.mp h).2⟩

/-- The record, once the checks before it have passed and the bounce page is there. -/
theorem rest_record {d : NvmeIdentifyNs} {b : Block Site} (hb : b ∈ w.sys.heap.live)
    (hsize : b.size = 4096) (hd : d = identifyNsAt w.store.mem b.addr) (hf : d.Formatted)
    (hpage : (afterPage w).sys.nvmeDmaBuffer ≠ 0) (nsId mdts : Nat) :
    ∃ u, (recordNs b.addr nsId mdts d.format).exec (afterPage w) = (.ok (), u) ∧
      Rest d b.addr nsId mdts w (u.free b.addr) := by
  have hpaged := (exec_ensureDma w).2
  have hsame : SameNsData w.store.mem (afterPage w).store.mem b.addr :=
    sameNsData fun o ho => hpaged.mem b hb o (by omega)
  have hlt : d.format < 16 := Nat.lt_of_le_of_lt Nat.and_le_right (by decide)
  have hnsze : (identifyNsAt (afterPage w).store.mem b.addr).nsze = d.nsze := by rw [hsame.nsze, hd]
  have hlbaf : (identifyNsAt (afterPage w).store.mem b.addr).lbaf d.format = d.lbaf d.format := by
    rw [hsame.lbaf _ hlt, ← hd]
  have hexec := exec_recordNs (afterPage w) b.addr nsId mdts d.format (a := recordAt w) rfl
  dsimp only at hexec
  rw [hnsze, hlbaf] at hexec
  refine ⟨_, hexec, ?_⟩
  by_cases h0 : recordAt w = 0
  · rw [if_pos h0]
    exact .noRecord hf hpage h0 (by simp [hpaged.q]) (by simp [h0])
  rw [if_neg h0]
  obtain ⟨c, hc, hsite, hlive, hapart⟩ := chosen_live (afterPage w) h0
  have hrec : recordAt w = c.addr := hc.symm
  have hne : c.addr ≠ b.addr := (hapart b (hpaged.live b hb)).symm
  split
  · rename_i hlarge
    refine .tooLarge hf hpage h0 (Nat.not_le.mpr hlarge) (by simp [hpaged.q]) (by simp) fun x hx => ?_
    exact (free_live_sub (free_live_sub hx).1).2
  · rename_i hfits
    refine .accepted ⟨hf, Nat.not_lt.mp hfits⟩ hpage h0 (by simp [hpaged.q]) (by simp) ?_
      ⟨c, live_free ?_ hne, hc, hsite⟩
    · rw [free_nsRec, World.use_sys, World.note_sys, setNs_nsRec]
      rfl
    · rw [hrec]
      change c ∈ ((afterPage w).chosen c.addr).sys.heap.live
      rw [hlive]
      exact List.mem_cons_self ..

/-- ITERATION RULE: the rest of an iteration, run undisturbed with the Identify buffer `b`. -/
theorem exec_rest {d : NvmeIdentifyNs} {b : Block Site} (hb : b ∈ w.sys.heap.live)
    (hsize : b.size = 4096) (hd : d = identifyNsAt w.store.mem b.addr) (nsId mdts : Nat) :
    ∃ v, (do probeIdentified b.addr nsId mdts; free b.addr : Drv Unit).exec w = (.ok (), v) ∧
      Rest d b.addr nsId mdts w v := by
  have hexec : ∀ {u}, (probeIdentified b.addr nsId mdts).exec w = (.ok (), u) →
      (do probeIdentified b.addr nsId mdts; free b.addr : Drv Unit).exec w =
        (.ok (), u.free b.addr) := fun h => exec_bind_ok h _
  -- the checks read one after another the data that is there
  have hprobe : (probeIdentified b.addr nsId mdts).exec w = (if d.nlbaf < d.format then pure ()
      else idNs b.addr (·.nsze) >>= fun nsze =>
        if nsze = 0 then pure ()
        else ensureDmaBuffer >>= fun dma =>
          if dma = 0 then pure () else recordNs b.addr nsId mdts d.format : Drv Unit).exec w := by
    rw [hd]
    rfl
  have hsize' : ∀ k : Nat → Drv Unit, (idNs b.addr (·.nsze) >>= k).exec w = (k d.nsze).exec w := by
    intro k
    rw [hd]
    rfl
  by_cases hr : d.nlbaf < d.format
  · rw [if_pos hr] at hprobe
    exact ⟨_, hexec hprobe, .rejected (fun h => absurd h.range (Nat.not_le.mpr hr)) (free_kept _ w)⟩
  rw [if_neg hr, hsize'] at hprobe
  by_cases hz : d.nsze = 0
  · rw [if_pos hz] at hprobe
    exact ⟨_, hexec hprobe, .rejected (fun h => h.size hz) (free_kept _ w)⟩
  rw [if_neg hz, exec_bind_ok (exec_ensureDma w).1] at hprobe
  by_cases hpage : (afterPage w).sys.nvmeDmaBuffer = 0
  · rw [if_pos hpage] at hprobe
    exact ⟨_, hexec hprobe, .noPage hpage (.of_paged (exec_ensureDma w).2 _)⟩
  · rw [if_neg hpage] at hprobe
    obtain ⟨u, hu, hrest⟩ := rest_record hb hsize hd ⟨Nat.not_lt.mp hr, hz⟩ hpage nsId mdts
    exact ⟨_, hexec (hprobe.trans hu), hrest⟩

end Nvme
