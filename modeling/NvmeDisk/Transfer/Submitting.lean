import NvmeDisk.Transfer.Piece

/-! The one command a call of `nvme_prpl_xfer` submits. From any state, and whatever the controller does,
    nothing but this command is handed over, and when it is, the PRP list stands in the bounce page
    as the driver wrote it. -/

namespace Nvme
open Ring Resume Bytes BlockDev

/-- The entry of a doorbell write of the I/O submission queue. -/
def Event.ioEntry? : Event → Option NvmeSqe
  | .commit .io _ e _ => some e
  | _ => none

/-- The I/O entries handed over, newest first. -/
def handedOver (log : List Event) : List NvmeSqe := log.filterMap Event.ioEntry?

variable {mayFail : Nat → Bool} {count : Nat} {w v u base : World} {ns : NvmeNamespace}
  {lba buf prp1 prp2 : Nat} {write : Bool} {cmd cmd' : NvmeSqe → Prop} {l : List Nat}

/-! ### Actions that submit nothing -/

/-- No command is handed over; the log is the same and so is memory, or something was noted. -/
structure Aside (w v : World) : Prop where
  entries : handedOver v.log = handedOver w.log
  newest : (v.log = w.log ∧ v.store.mem = w.store.mem) ∨
    ∃ ev log, v.log = ev :: log ∧ ev.ioEntry? = none

theorem Aside.quiet (hlog : v.log = w.log) (hmem : v.store.mem = w.store.mem) : Aside w v :=
  ⟨by rw [hlog], .inl ⟨hlog, hmem⟩⟩

theorem Aside.note {ev : Event} (hlog : v.log = ev :: w.log) (hev : ev.ioEntry? = none) :
    Aside w v := by
  refine ⟨?_, .inr ⟨ev, w.log, hlog, hev⟩⟩
  rw [hlog, handedOver, List.filterMap_cons, hev]
  rfl

theorem aside_move {m : Move} (hm : nvmeMove mayFail m w = some v) : Aside w v := by
  rcases nvmeMove_cases hm with ⟨i, _, rfl⟩ | ⟨i, k, g, e, n, t, _, _, rfl⟩ |
    ⟨i, k, e, n, t, _, _, rfl⟩ | ⟨i, k, e, n, sf, _, _, rfl⟩ | ⟨i, k, e, n, sf, _, rfl⟩
  · exact .quiet rfl rfl
  · exact .note rfl rfl
  · exact .note rfl rfl
  · exact .quiet rfl rfl
  · exact .quiet rfl rfl

theorem aside_consumeCqe (i : QId) : (nvmeConsumeCqe i).Does Aside := by
  refine .bind (.act fun w => ?_) fun slot => ?_
  · split
    · exact .note rfl rfl
    · exact .quiet rfl rfl
  · cases slot with
    | none => exact .ret
    | some s => exact .act fun w => .note rfl rfl

theorem aside_waitLoop (i : QId) (k : Nat) : (nvmeWaitLoop i k).Does Aside := by
  induction k with
  | zero => exact .bind (.modify fun w => .note rfl rfl) fun _ => .ret
  | succ k ih =>
    refine .bind (.get (fun w => .quiet rfl rfl) _) fun ready => ?_
    split
    · exact aside_consumeCqe i
    · exact ih

/-! ### At most one command -/

section
variable (base : World) (cmd : NvmeSqe → Prop) (dma : Nat) (l : List Nat)

/-- Since `base` at most one command was handed over, one as `cmd` says; up to what is noted next,
    memory holds the list `l` if there was no other work in `base`. -/
inductive Submits (v : World) : Prop where
  | none : handedOver v.log = handedOver base.log → Submits v
  | one (e : NvmeSqe) : cmd e → handedOver v.log = e :: handedOver base.log →
      (Rested base → ∀ ev log, v.log = ev :: log → ev.ioEntry? ≠ none → Holds v.store.mem dma l) →
      Submits v

end

variable {dma : Nat}

theorem Submits.aside (h : Submits base cmd dma l w) (ha : Aside w v) : Submits base cmd dma l v := by
  cases h with
  | none h => exact .none (ha.entries.trans h)
  | one e he h hmem =>
    refine .one e he (ha.entries.trans h) fun hc ev log hlog hev => ?_
    rcases ha.newest with ⟨hsame, hkept⟩ | ⟨ev', log', hnew, hnone⟩
    · rw [hkept]
      exact hmem hc ev log (hsame ▸ hlog) hev
    · rw [hlog] at hnew
      rw [(List.cons.inj hnew).1] at hev
      exact absurd hnone hev

theorem submits_stable : Stable (Nvmec mayFail) (Submits base cmd dma l) := by
  rintro w v h ⟨m, hm⟩
  exact h.aside (aside_move hm)

/-- Without a list the driver may write memory. -/
theorem Submits.setMem (h : Submits base cmd dma [] w) (m : Mem) :
    Submits base cmd dma [] (w.setMem m) := by
  cases h with
  | none h => exact .none h
  | one e he h _ => exact .one e he h fun _ _ _ _ _ k hk => by cases hk

/-! ### Before the command -/

/-- Nothing has been handed over since `base`. -/
structure Before (base v : World) : Prop where
  sys : v.sys = base.sys
  entries : handedOver v.log = handedOver base.log
  rested : Rested base → Rested v

theorem Before.refl (base : World) : Before base base := ⟨rfl, rfl, id⟩

theorem Before.submits (h : Before base v) : Submits base cmd dma l v := .none h.entries

theorem Before.setMem (h : Before base v) (m : Mem) : Before base (v.setMem m) :=
  ⟨h.sys, h.entries, h.rested⟩

theorem Before.env (h : Before base w) (he : Env (Nvmec mayFail) w v) : Before base v := by
  refine Stable.env (P := Before base) ?_ h he
  rintro w v h ⟨m, hm⟩
  refine ⟨?_, (aside_move hm).entries.trans h.entries, fun hs => ?_⟩
  · rcases nvmeMove_cases hm with ⟨i, _, rfl⟩ | ⟨i, k, g, e, n, t, _, _, rfl⟩ |
      ⟨i, k, e, n, t, _, _, rfl⟩ | ⟨i, k, e, n, sf, _, _, rfl⟩ | ⟨i, k, e, n, sf, _, rfl⟩ <;>
      exact h.sys
  · exact absurd ⟨m, hm⟩ ((h.rested hs).quiet v)

/-- The driver writes its own side of a queue. -/
theorem Rested.setSqes (h : Rested w) (i : QId) (sqes : Nat → NvmeSqe) :
    Rested (w.setQ i { w.q i with sqes := sqes }) := by
  intro j
  by_cases hj : j = i
  · subst hj
    rw [World.setQ_q_same]
    exact ⟨(h j).fetched, (h j).flight⟩
  · rw [World.setQ_q_ne _ _ hj]
    exact h j

theorem Before.setSqes (h : Before base v) (i : QId) (sqes : Nat → NvmeSqe) :
    Before base (v.setQ i { v.q i with sqes := sqes }) :=
  ⟨h.sys, h.entries, fun hs => (h.rested hs).setSqes i sqes⟩

/-! ### The command -/

/-- An aligned `nvme_io_xfer` hands over its command, or none if there is no entry to be had. -/
theorem wp_ioSubmits (h : Before base w) (hal : ¬ misaligned prp1 prp2)
    (hcmd : ∀ tail, cmd (ioSqe ns lba prp1 prp2 count write tail))
    (hmem : Rested base → Holds w.store.mem dma l) :
    Wp (Nvmec mayFail) (Submits base cmd dma l) (nvmeIoXfer ns lba prp1 prp2 count write)
      (fun res v => Submits base cmd dma l v ∧ (res = count ∨ res = -1)) (fun _ _ => True) w := by
  -- with nothing else to do the controller does not touch memory before the commit
  have hstable : Stable (Nvmec mayFail) fun v => Before base v ∧ (Rested base → v.store = w.store) :=
    fun u v hu hr => ⟨hu.1.env (.single hr), fun hs => by
      rw [(hu.1.rested hs).quiet.env (.single hr)]
      exact hu.2 hs⟩
  rw [nvmeIoXfer, if_neg hal]
  refine wp_submit (fun u v hr => have hsame := sameDriver_env (.single hr) .io; ⟨hsame.sq, hsame.sqes⟩)
    hstable (fun _ hv => hv.1.submits) (fun v sqes hv => ⟨hv.1.setSqes .io sqes, hv.2⟩) (fun _ => rfl)
    (fun v hv => ?_) (fun x hx hentry => ?_) ⟨h, fun _ => rfl⟩
  · exact wp_halt fun z hz => ⟨submits_stable.env hv.1.submits hz, trivial⟩
  obtain ⟨tail, hentry⟩ := hentry
  have hnow : Submits base cmd dma l (x.commitSqe .io) := by
    refine .one _ (hcmd tail) ?_ fun hs _ _ _ _ => ?_
    · rw [← hx.1.entries]
      exact congrArg (· :: _) hentry
    · have hlist := hmem hs
      rw [← hx.2 hs] at hlist
      exact hlist
  refine wp_seq (wp_keeps submits_stable ((aside_waitLoop .io 500).keeps fun _ _ ha hw =>
    hw.aside ha) hnow) (fun _ _ hf => hf.elim) fun cqe z hz => ?_
  split
  · exact wp_ret fun y hy => ⟨submits_stable.env hz hy, submits_stable.env hz hy, .inl rfl⟩
  · exact wp_ret fun y hy => ⟨submits_stable.env hz hy, submits_stable.env hz hy, .inr rfl⟩

theorem wp_bounceSubmits (h : Before base w) (hdma : base.sys.nvmeDmaBuffer % 4096 = 0)
    (hcmd : ∀ tail, cmd (ioSqe ns lba base.sys.nvmeDmaBuffer 0 (bounceBlocks ns count) write tail)) :
    Wp (Nvmec mayFail) (Submits base cmd dma []) (nvmeBounceXfer ns lba buf count write)
      (fun res v => Submits base cmd dma [] v ∧ (res = bounceBlocks ns count ∨ res = -1))
      (fun _ _ => True) w := by
  have hal : ¬ misaligned base.sys.nvmeDmaBuffer 0 := by
    rw [misaligned_iff]
    omega
  have hnone : ∀ m : Mem, Holds m dma [] := fun m k hk => by cases hk
  unfold nvmeBounceXfer
  refine wp_get_bind fun v he => ⟨(h.env he).submits, ?_⟩
  have hv := h.env he
  rw [hv.sys]
  cases write with
  | true =>
    refine wp_modify_bind fun u hu => ⟨(hv.env hu).submits, ?_⟩
    refine wp_seq (wp_ioSubmits ((hv.env hu).setMem _) hal hcmd fun _ => hnone _)
      (fun _ _ hX => hX) ?_
    rintro res z ⟨hz, hres⟩
    rw [if_neg (by simp)]
    exact wp_ret fun z' he' => ⟨submits_stable.env hz he', submits_stable.env hz he', hres⟩
  | false =>
    refine wp_seq (wp_ioSubmits hv hal hcmd fun _ => hnone _) (fun _ _ hX => hX) ?_
    rintro res z ⟨hz, hres⟩
    split
    · refine wp_modify_bind fun z' he' => ⟨submits_stable.env hz he', ?_⟩
      have hz' := (submits_stable.env hz he').setMem
        (copy z'.store.mem buf base.sys.nvmeDmaBuffer (u32 (res.toNat * ns.blockSize)))
      exact wp_ret fun z'' he'' => ⟨submits_stable.env hz' he'', submits_stable.env hz' he'', hres⟩
    · exact wp_ret fun z' he' => ⟨submits_stable.env hz he', submits_stable.env hz he', hres⟩

/-! ### The call -/

/-- The entry `nvme_prpl_xfer` commits into slot `tail`, the bounce page being at `dma`. -/
def prplSqe (ns : NvmeNamespace) (dma lba buf count : Nat) (write : Bool) (tail : Nat) : NvmeSqe :=
  ioSqe ns lba (if (prplPath ns buf (clampCount ns count)).Direct then buf else dma)
    ((prplPath ns buf (clampCount ns count)).prp2 dma buf) (movedBlocks ns buf count) write tail

/-- The command a call hands over: none for a stray buffer. -/
def CallSqe (ns : NvmeNamespace) (dma lba buf count : Nat) (write : Bool) (e : NvmeSqe) : Prop :=
  ¬ Stray ns buf count ∧ ∃ tail, e = prplSqe ns dma lba buf count write tail

/-- What is known wherever a call has come to. -/
abbrev CallSubmits (base : World) (ns : NvmeNamespace) (lba buf count : Nat) (write : Bool) :
    World → Prop :=
  Submits base (CallSqe ns base.sys.nvmeDmaBuffer lba buf count write) base.sys.nvmeDmaBuffer
    (prplPath ns buf (clampCount ns count)).words

/-- SUBMITTED RULE: a call of `nvme_prpl_xfer` hands over at most its own command, with the list words
    in the bounce page, and returns the number of blocks of that command or -1. -/
theorem wp_prplSubmits (hB : GoodBlock ns.blockSize) (hcount : count ≤ 65535)
    (hdma : base.sys.nvmeDmaBuffer % 4096 = 0) :
    Wp (Nvmec mayFail) (CallSubmits base ns lba buf count write) (nvmePrplXfer ns lba buf count write)
      (fun res v => CallSubmits base ns lba buf count write v ∧
        (res = movedBlocks ns buf count ∨ res = -1)) (fun _ _ => True) base := by
  have hway := prplPath_way hB ((clampCount_le ns count).trans hcount) buf
  have hb := Before.refl base
  have hnone : ∀ m : Mem, Holds m base.sys.nvmeDmaBuffer [] := fun m k hk => by cases hk
  by_cases hs : Stray ns buf count
  · -- refused before the queue is looked at
    have hp := hs.1
    simp only [nvmePrplXfer, hp, nvmeIoXfer, if_pos ((misaligned_iff _ _).mpr (.inl hs.2))]
    refine wp_modify_bind fun v he => ⟨(hb.env he).submits, wp_ret fun u hu => ?_⟩
    have hv : CallSubmits base ns lba buf count write v := (hb.env he).submits
    have hu' := submits_stable.env (hv.aside (.note rfl rfl)) hu
    exact ⟨hu', hu', .inr rfl⟩
  · have hcmd : ∀ tail, CallSqe ns base.sys.nvmeDmaBuffer lba buf count write
        (prplSqe ns base.sys.nvmeDmaBuffer lba buf count write tail) := fun tail => ⟨hs, tail, rfl⟩
    unfold prplSqe movedBlocks at hcmd
    rw [Stray] at hs
    unfold CallSubmits movedBlocks
    simp only [nvmePrplXfer]
    rcases hp : prplPath ns buf (clampCount ns count) with _ | _ | l | l <;>
      rw [hp] at hway hs <;> simp only [hp, Path.Direct, if_true, if_false] at hcmd ⊢
    · exact wp_ioSubmits hb (hway.aligned trivial hs hdma) hcmd fun _ => hnone _
    · exact wp_ioSubmits hb (hway.aligned trivial hs hdma) hcmd fun _ => hnone _
    · refine wp_get_bind fun v he => ⟨(hb.env he).submits, ?_⟩
      have hv := hb.env he
      rw [hv.sys]
      refine wp_modify_bind fun u hu => ⟨(hv.env hu).submits, ?_⟩
      exact wp_ioSubmits ((hv.env hu).setMem _) (hway.aligned trivial hs hdma) hcmd fun _ =>
        holds_storeWords _ _ hway.words_bound.2
    · refine wp_get_bind fun v he => ⟨(hb.env he).submits, ?_⟩
      refine wp_modify_bind fun u hu => ⟨((hb.env he).env hu).submits, ?_⟩
      exact wp_bounceSubmits (((hb.env he).env hu).setMem _) hdma hcmd

end Nvme
