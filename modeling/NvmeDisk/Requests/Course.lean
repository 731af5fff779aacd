import NvmeDisk.Transfer.Request
import NvmeDisk.Transfer.Submitting

/-! A block request under any device. Of the world only the driver's queue structures, its globals and
    its doings in the log are its own (`AnyDevice`); the ring may have any length. How the loops go then
    depends on the request, on the submission ring, and on how the device answers each command
    (`Walks`). -/

namespace Nvme
open Resume Bytes BlockDev

/-! ### The driver's own log -/

/-- Anything may happen to the world, but nobody else logs a doing of the driver. -/
def Outside (w v : World) : Prop :=
  ∃ new, (∀ ev ∈ new, ∃ i n, ev = .access i n) ∧ v.log = new ++ w.log

def Event.isAccess : Event → Bool
  | .access _ _ => true
  | _ => false

/-- The log without the controller's accesses. -/
def doings (log : List Event) : List Event := log.filter fun ev => !ev.isAccess

/-- The `sq_head` fields of the completions polled on the I/O queue, oldest first. -/
def heads (log : List Event) : List Nat :=
  (log.filterMap fun
    | .consumed .io _ c => some c.sqHead
    | _ => none).reverse

section
variable {w v : World} {log : List Event} {i : QId}

theorem Outside.doings (h : Outside w v) : doings v.log = doings w.log := by
  obtain ⟨new, hnew, hlog⟩ := h
  have hnone : Nvme.doings new = [] := by
    refine List.filter_eq_nil_iff.mpr fun ev hev => ?_
    obtain ⟨i, n, rfl⟩ := hnew ev hev
    simp [Event.isAccess]
  rw [hlog, Nvme.doings, List.filter_append]
  exact congrArg (· ++ _) hnone

theorem doings_cons {ev : Event} (h : ev.isAccess = false) (log : List Event) :
    doings (ev :: log) = ev :: doings log := by
  simp [doings, h]

theorem ledger_doings (log : List Event) : ledger (doings log) = ledger log := by
  induction log with
  | nil => rfl
  | cons ev log ih =>
    by_cases h : ev.isAccess = true
    · have haccess : ledger (ev :: log) = ledger log ∧ doings (ev :: log) = doings log := by
        cases ev <;> first | exact ⟨rfl, rfl⟩ | cases h
      rw [haccess.1, haccess.2, ih]
    · rw [doings_cons (by simpa using h)]
      have hstep : ∀ a b : List Event, ledger a = ledger b → ledger (ev :: a) = ledger (ev :: b) := by
        intro a b hab
        cases ev with
        | commit i slot e tail => cases i <;> simp [ledger, hab]
        | copied i c => cases i <;> simp [ledger, hab]
        | _ => simp [ledger, hab]
      exact hstep _ _ ih

theorem heads_doings (log : List Event) : heads (doings log) = heads log := by
  rw [heads, heads, doings, List.filterMap_filter]
  congr 2
  funext ev
  cases ev <;> rfl

theorem handedOver_doings (log : List Event) : handedOver (doings log) = handedOver log := by
  rw [handedOver, handedOver, doings, List.filterMap_filter]
  congr 1
  funext ev
  cases ev <;> rfl

theorem heads_append (a b : List Event) : heads (a ++ b) = heads b ++ heads a := by
  simp [heads, List.filterMap_append]

end

/-! ### The submission ring -/

/-- The full test. -/
def NvmeSq.Full (sq : NvmeSq) : Prop := (sq.head + 1) &&& sq.common.mask = sq.tail

/-- After a commit. -/
def NvmeSq.next (sq : NvmeSq) : NvmeSq := { sq with tail := (sq.tail + 1) &&& sq.common.mask }

/-- After a command and its completion, which has `head` in its field `sq_head`. -/
def NvmeSq.turn (sq : NvmeSq) (head : Nat) : NvmeSq := { sq.next with head := head }

/-- Each of the next `n` commands finds an entry, as far as the completions' `heads` tell. -/
def NvmeSq.HasRoom : NvmeSq → Nat → List Nat → Prop
  | _, 0, _ => True
  | sq, _ + 1, [] => ¬ sq.Full
  | sq, n + 1, head :: heads => ¬ sq.Full ∧ (sq.turn head).HasRoom n heads

theorem NvmeSq.HasRoom.not_full {sq : NvmeSq} {n : Nat} {heads : List Nat} (h : sq.HasRoom (n + 1) heads) :
    ¬ sq.Full := by
  cases heads with
  | nil => exact h
  | cons _ _ => exact h.1

/-- How a command is answered: by the completion entry taken for it, with the `sq_head` polled and the
    status field copied, or not in time. -/
inductive Answer where
  | taken (sqHead sf : Nat)
  | late

def Answer.sf? : Answer → Option Nat
  | .taken _ sf => some sf
  | .late => none

def Answer.head? : Answer → Option Nat
  | .taken head _ => some head
  | .late => none

/-- The driver takes it for success. -/
def Answer.Good : Answer → Prop
  | .taken _ sf => sf % 256 = 0
  | .late => False

theorem Answer.good {r : Answer} (h : r.sf? = some 0) : r.Good := by
  cases r with
  | late => cases h
  | taken head sf => rw [Good, Option.some.inj h]

def NvmeSq.answer (sq : NvmeSq) : Answer → NvmeSq
  | .taken head _ => sq.turn head
  | .late => sq.next

def NvmeSq.after (sq : NvmeSq) (rs : List Answer) : NvmeSq := rs.foldl NvmeSq.answer sq

/-! ### What the driver's side shows -/

/-- Anything a device may do. -/
structure AnyDevice (w v : World) : Prop where
  sq : (v.q .io).sq = (w.q .io).sq
  sys : v.sys = w.sys
  outside : Outside w v

/-- The driver's doings and its submission queue. -/
structure Track where
  doings : List Event
  sq : NvmeSq

/-- The world shows this, the bounce page being at `dma`. -/
structure Showing (dma : Nat) (x : Track) (w : World) : Prop where
  doings : doings w.log = x.doings
  sq : (w.q .io).sq = x.sq
  dma : w.sys.nvmeDmaBuffer = dma

/-- Commands answered so, and warnings. -/
inductive Commanded (x : Track) : List Answer → Track → Prop where
  | nil : Commanded x [] x
  | taken {rs y} (slot : Nat) (e : NvmeSqe) (tail head : Nat) (polled c : NvmeCqe) : Commanded x rs y →
      Commanded x (rs ++ [.taken polled.sqHead c.sf]) ⟨.copied .io c :: .consumed .io head polled ::
        .commit .io slot e tail :: y.doings, y.sq.turn polled.sqHead⟩
  | missed {rs y} (slot : Nat) (e : NvmeSqe) (tail : Nat) : Commanded x rs y →
      Commanded x (rs ++ [.late]) ⟨.commit .io slot e tail :: y.doings, y.sq.next⟩
  | late {rs y} (slot : Nat) (e : NvmeSqe) (tail : Nat) : Commanded x rs y →
      Commanded x (rs ++ [.late]) ⟨.timeout .io :: .commit .io slot e tail :: y.doings, y.sq.next⟩
  | warned {rs y} (c : Warn) : Commanded x rs y → Commanded x rs ⟨.warn c :: y.doings, y.sq⟩

variable {w v : World} {dma : Nat} {x y z : Track} {rs rs' : List Answer} {r : Answer} {ns : NvmeNamespace}
  {sg : Buf} {lba prp1 prp2 buf count fuel id : Nat} {write : Bool} {α β : Type}

theorem anyDevice_of_nvmec {mayFail : Nat → Bool} (h : Nvmec mayFail w v) : AnyDevice w v := by
  obtain ⟨m, hm⟩ := h
  have hsettle : ∀ {i : QId} {p : QPair}, p.sq = (w.q i).sq → ((w.setQ i p).q .io).sq = (w.q .io).sq := by
    intro i p hp
    cases i with
    | admin => rfl
    | io => exact hp
  rcases nvmeMove_cases hm with ⟨i, _, rfl⟩ | ⟨i, k, g, e, n, t, _, _, rfl⟩ |
    ⟨i, k, e, n, t, _, _, rfl⟩ | ⟨i, k, e, n, sf, _, _, rfl⟩ | ⟨i, k, e, n, sf, _, rfl⟩
  · exact ⟨hsettle rfl, rfl, [], by simp, rfl⟩
  · exact ⟨rfl, rfl, [.access i n], by simp, rfl⟩
  · exact ⟨hsettle rfl, rfl, [.access i n], by simp, rfl⟩
  · exact ⟨hsettle rfl, rfl, [], by simp, rfl⟩
  · exact ⟨hsettle rfl, rfl, [], by simp, rfl⟩

theorem nvmec_outside {mayFail : Nat → Bool} (h : Nvmec mayFail w v) : Outside w v :=
  (anyDevice_of_nvmec h).outside

theorem showing_stable (dma : Nat) (x : Track) : Stable AnyDevice (Showing dma x) := fun _ _ h hr =>
  ⟨hr.outside.doings.trans h.doings, hr.sq.trans h.sq, by rw [hr.sys]; exact h.dma⟩

theorem Commanded.trans (h : Commanded x rs y) (h' : Commanded y rs' z) : Commanded x (rs ++ rs') z := by
  induction h' with
  | nil => rwa [List.append_nil]
  | taken slot e tail head polled c _ ih =>
    rw [← List.append_assoc]
    exact .taken slot e tail head polled c ih
  | missed slot e tail _ ih =>
    rw [← List.append_assoc]
    exact .missed slot e tail ih
  | late slot e tail _ ih =>
    rw [← List.append_assoc]
    exact .late slot e tail ih
  | warned c _ ih => exact .warned c ih

theorem Commanded.sq (h : Commanded x rs y) : y.sq = x.sq.after rs := by
  induction h with
  | nil => rfl
  | warned _ _ ih => exact ih
  | _ => simp [NvmeSq.after, NvmeSq.answer, *]

theorem Commanded.heads (h : Commanded x rs y) :
    heads y.doings = heads x.doings ++ rs.filterMap Answer.head? := by
  induction h with
  | nil => simp
  | warned c _ ih => exact ih
  | _ => simp_all [Nvme.heads, Answer.head?]

/-- As many entries were handed over as commands answered. -/
theorem Commanded.handedOver (h : Commanded x rs y) : ∃ es,
    handedOver y.doings = es ++ handedOver x.doings ∧ es.length = rs.length := by
  induction h with
  | nil => exact ⟨[], rfl, rfl⟩
  | warned c _ ih => exact ih
  | taken _ e _ _ _ _ _ ih | missed _ e _ _ ih | late _ e _ _ ih =>
    obtain ⟨es, hes, hlen⟩ := ih
    refine ⟨e :: es, ?_, by simp [hlen]⟩
    rw [List.cons_append, ← hes]
    rfl

/-- The account of the current buffer. -/
theorem Commanded.ledger (h : Commanded x rs y) : ∃ cmds : List Cmd,
    ledger y.doings = onTop (cmds ++ ·) (ledger x.doings) ∧ cmds.map (·.sf) = (rs.map Answer.sf?).reverse := by
  induction h with
  | nil => exact ⟨[], (onTop_nil _).symm, rfl⟩
  | taken slot e tail head polled c _ ih =>
    obtain ⟨cmds, hled, hsf⟩ := ih
    refine ⟨e.cmd (some c.sf) :: cmds, ?_, by simp [NvmeSqe.cmd, Answer.sf?, hsf]⟩
    simp only [Nvme.ledger, hled, onTop_onTop]
    rfl
  | missed slot e tail _ ih =>
    obtain ⟨cmds, hled, hsf⟩ := ih
    refine ⟨e.cmd none :: cmds, ?_, by simp [NvmeSqe.cmd, Answer.sf?, hsf]⟩
    simp only [Nvme.ledger, hled, onTop_onTop]
    rfl
  | late slot e tail _ ih =>
    obtain ⟨cmds, hled, hsf⟩ := ih
    refine ⟨e.cmd none :: cmds, ?_, by simp [NvmeSqe.cmd, Answer.sf?, hsf]⟩
    simp only [Nvme.ledger, hled, onTop_onTop]
    rfl
  | warned c _ ih => exact ih

/-! ### Commands -/

/-- Under any device: ends as `Φ` says or stops as `X` says. -/
abbrev Goes (dma : Nat) (x : Track) (p : Drv α) (Φ : α → Track → Prop) (X : Halt → Track → Prop) : Prop :=
  Leads AnyDevice (Showing dma) x p Φ X

section
variable {Φ : α → Track → Prop} {X : Halt → Track → Prop} {k : β → Drv α}

theorem goes_ret {a : α} (h : Φ a x) : Goes dma x (.ret a) Φ X := leads_ret (showing_stable dma) h

/-- Code that leaves the doings, the queue and the bounce page's address. -/
theorem Goes.after {q : Drv β} (hq : q.Keeps (Showing dma x)) (hk : ∀ b, Goes dma x (k b) Φ X) :
    Goes dma x (q >>= k) Φ X := Leads.after (showing_stable dma) hq hk

/-- The bounce page is where it was. -/
theorem Goes.dmaBuffer {k : Nat → Drv α} (hk : Goes dma x (k dma) Φ X) : Goes dma x (dmaBuffer >>= k) Φ X :=
  leads_atom (showing_stable dma) fun w hw => ⟨x, hw, by
    change Goes dma x (k w.sys.nvmeDmaBuffer) Φ X
    rwa [hw.dma]⟩

theorem goes_note {ev : Event} (h : ev.isAccess = false) :
    Goes dma x (note ev) (fun _ y => y = ⟨ev :: x.doings, x.sq⟩) X :=
  leads_atom (showing_stable dma) fun _ hw => ⟨⟨ev :: x.doings, x.sq⟩,
    ⟨(doings_cons h _).trans (congrArg _ hw.doings), hw.sq, hw.dma⟩, goes_ret rfl⟩

end

/-- The end of a wait: no success and nothing taken, or the entry logged just before. -/
inductive Awaits (x : Track) (c : NvmeCqe) : Track → Prop where
  | missed : nvmeIsCqeSuccess c = false → Awaits x c x
  | late : nvmeIsCqeSuccess c = false → Awaits x c ⟨.timeout .io :: x.doings, x.sq⟩
  | taken (head : Nat) (polled : NvmeCqe) : Awaits x c
      ⟨.copied .io c :: .consumed .io head polled :: x.doings, { x.sq with head := polled.sqHead }⟩

theorem goes_consume {X : Halt → Track → Prop} : Goes dma x (nvmeConsumeCqe .io) (Awaits x) X := by
  have hcopy : ∀ (slot head : Nat) (polled : NvmeCqe), Goes dma ⟨.consumed .io head polled :: x.doings,
      { x.sq with head := polled.sqHead }⟩ (copyCqe .io slot) (Awaits x) X := fun slot head polled =>
    leads_atom (showing_stable dma) fun v hv => ⟨⟨.copied .io ((v.q .io).cqes slot) ::
      .consumed .io head polled :: x.doings, { x.sq with head := polled.sqHead }⟩,
      ⟨(doings_cons rfl _).trans (congrArg _ hv.doings), hv.sq, hv.dma⟩, goes_ret (.taken head polled)⟩
  refine leads_atom (showing_stable dma) fun w hw => ?_
  dsimp only
  split
  · refine ⟨_, ⟨?_, ?_, hw.dma⟩, hcopy _ (nvmeAdvanceCq (w.q .io)).cq.head ((w.q .io).cqes (w.q .io).cq.head)⟩
    · exact (doings_cons rfl _).trans (congrArg _ hw.doings)
    · rw [World.advanceCq, World.note_q, World.setQ_q_same, nvmeAdvanceCq, hw.sq]
  · exact ⟨x, hw, goes_ret (.missed nvmeErrorCqe_not_success)⟩

theorem goes_wait {X : Halt → Track → Prop} : Goes dma x (nvmeWait .io) (Awaits x) X := by
  have hloop : ∀ n, Goes dma x (nvmeWaitLoop .io n) (Awaits x) X := by
    intro n
    induction n with
    | zero =>
      refine Leads.seq (goes_note rfl) (fun _ _ h => h) fun _ y hy => ?_
      rw [hy]
      exact goes_ret (.late nvmeErrorCqe_not_success)
    | succ n ih =>
      refine Goes.after (.get _) fun ready => ?_
      split
      · exact goes_consume
      · exact ih
  exact hloop 500

theorem goes_commit {X : Halt → Track → Prop} : Goes dma x (commitSqe .io)
    (fun _ y => ∃ slot e tail, y = ⟨.commit .io slot e tail :: x.doings, x.sq.next⟩) X :=
  leads_atom (showing_stable dma) fun u hu => ⟨⟨.commit .io (u.q .io).sq.tail
    ((u.q .io).sqes (u.q .io).sq.tail) (nvmeCommitSqe (u.q .io)).sq.tail :: x.doings, x.sq.next⟩, by
      refine ⟨(doings_cons rfl _).trans (congrArg _ hu.doings), ?_, hu.dma⟩
      rw [World.commitSqe, World.note_q, World.setQ_q_same, nvmeCommitSqe, hu.sq]
      rfl, goes_ret ⟨_, _, _, rfl⟩⟩

/-- What an `nvme_io_xfer` of `count` blocks comes to if it gets an entry: one command. -/
def OneCommand (x : Track) (count : Nat) (res : Int) (y : Track) : Prop :=
  ∃ r, Commanded x [r] y ∧ ((r.Good ∧ res = count) ∨ (¬ r.Good ∧ res = -1))

theorem goes_submitted {X : Halt → Track → Prop} (slot nsid dword10 dword11 dword12 : Nat) :
    Goes dma x (do
      fillIn .io (some slot) nsid dword10 dword11 dword12
      commitSqe .io
      let cqe ← nvmeWait .io
      if nvmeIsCqeSuccess cqe then return (count : Int) else return -1) (OneCommand x count) X := by
  refine Goes.after (.modify fun u hu => ⟨hu.doings, ?_, hu.dma⟩) fun _ => ?_
  · rw [World.setQ_q_same]
    exact hu.sq
  refine Leads.seq goes_commit (fun _ _ h => h) ?_
  rintro _ _ ⟨slot, e, tail, rfl⟩
  refine Leads.seq goes_wait (fun _ _ h => h) fun c y hy => ?_
  cases hy with
  | missed hc =>
    rw [if_neg (by simp [hc])]
    exact goes_ret ⟨.late, .missed _ _ _ .nil, .inr ⟨fun h => h, rfl⟩⟩
  | late hc =>
    rw [if_neg (by simp [hc])]
    exact goes_ret ⟨.late, .late _ _ _ .nil, .inr ⟨fun h => h, rfl⟩⟩
  | taken head polled =>
    have hone := Commanded.taken slot e tail head polled c (.nil (x := x))
    split
    · rename_i hok
      exact goes_ret ⟨_, hone, .inl ⟨(nvmeIsCqeSuccess_iff c).mp hok, rfl⟩⟩
    · rename_i hfail
      exact goes_ret ⟨_, hone, .inr ⟨fun h => hfail ((nvmeIsCqeSuccess_iff c).mpr h), rfl⟩⟩

/-- An aligned `nvme_io_xfer`: one command, or the missing entry. -/
theorem goes_ioXfer (hal : ¬ misaligned prp1 prp2) :
    Goes dma x (nvmeIoXfer ns lba prp1 prp2 count write)
      (fun res y => ¬ x.sq.Full ∧ OneCommand x count res y) (fun e y => y = x ∧ x.sq.Full ∧ e = .nullSqe) := by
  rw [nvmeIoXfer, if_neg hal]
  refine leads_atom (showing_stable dma) fun w hw => ⟨x, ?_, ?_⟩
  · refine ⟨hw.doings, ?_, hw.dma⟩
    rw [World.setQ_q_same, ← hw.sq, nvmeGetNextSqe]
    split <;> rfl
  by_cases hfull : x.sq.Full
  · have htest : ((w.q .io).sq.head + 1) &&& (w.q .io).sq.common.mask = (w.q .io).sq.tail := by
      rw [hw.sq]
      exact hfull
    simp only [nvmeGetNextSqe, if_pos htest]
    exact leads_halt (showing_stable dma) ⟨rfl, hfull, rfl⟩
  · have htest : ((w.q .io).sq.head + 1) &&& (w.q .io).sq.common.mask ≠ (w.q .io).sq.tail := by
      rw [hw.sq]
      exact hfull
    simp only [nvmeGetNextSqe, if_neg htest]
    exact (goes_submitted _ _ _ _ _).mono (fun _ _ h => ⟨hfull, h⟩) fun _ _ h => h

theorem keeps_setMem {f : World → Mem} :
    (Prog.modify fun w => w.setMem (f w) : Drv Unit).Keeps (Showing dma x) :=
  .modify fun _ h => ⟨h.doings, h.sq, h.dma⟩

theorem goes_bounceXfer (hdma : dma % 4096 = 0) :
    Goes dma x (nvmeBounceXfer ns lba buf count write)
      (fun res y => ¬ x.sq.Full ∧ OneCommand x (bounceBlocks ns count) res y)
      (fun e y => y = x ∧ x.sq.Full ∧ e = .nullSqe) := by
  have hal : ¬ misaligned dma 0 := by
    rw [misaligned_iff]
    omega
  unfold nvmeBounceXfer
  refine .dmaBuffer ?_
  have htail : Goes dma x (do
      let res ← nvmeIoXfer ns lba dma 0 (bounceBlocks ns count) write
      if write = false ∧ 0 ≤ res then
        memcpy buf dma (u32 (res.toNat * ns.blockSize))
      return res) (fun res y => ¬ x.sq.Full ∧ OneCommand x (bounceBlocks ns count) res y)
      (fun e y => y = x ∧ x.sq.Full ∧ e = .nullSqe) := by
    refine Leads.seq (goes_ioXfer hal) (fun _ _ h => h) fun res y hy => ?_
    split
    · exact Goes.after keeps_setMem fun _ => goes_ret hy
    · exact goes_ret hy
  cases write with
  | false => exact htail
  | true => exact Goes.after keeps_setMem fun _ => htail

/-- What `nvme_prpl_xfer` comes to. -/
inductive Piecewise (ns : NvmeNamespace) (buf count : Nat) (x : Track) (res : Int) (y : Track) : Prop where
  | stray : Stray ns buf count → res = -1 → Commanded x [] y → Piecewise ns buf count x res y
  | moved : ¬ Stray ns buf count → ¬ x.sq.Full → OneCommand x (movedBlocks ns buf count) res y →
      Piecewise ns buf count x res y

theorem goes_prplXfer (hB : GoodBlock ns.blockSize) (hdma : dma % 4096 = 0) (hcount : count ≤ 65535) :
    Goes dma x (nvmePrplXfer ns lba buf count write) (Piecewise ns buf count x)
      (fun e y => ¬ Stray ns buf count ∧ y = x ∧ x.sq.Full ∧ e = .nullSqe) := by
  have hclamp : clampCount ns count ≤ 65535 := (clampCount_le ns count).trans hcount
  have hway := prplPath_way hB hclamp buf
  have hdirect : (prplPath ns buf (clampCount ns count)).Direct → ¬ Stray ns buf count →
      Goes dma x (nvmeIoXfer ns lba buf ((prplPath ns buf (clampCount ns count)).prp2 dma buf)
        (clampCount ns count) write) (Piecewise ns buf count x)
        (fun e y => ¬ Stray ns buf count ∧ y = x ∧ x.sq.Full ∧ e = .nullSqe) := by
    intro hd hs
    refine (goes_ioXfer (hway.aligned hd hs hdma)).mono (fun res y h => .moved hs h.1 ?_) fun _ _ h => ⟨hs, h⟩
    rw [movedBlocks_direct hd]
    exact h.2
  have hother : ∀ p, p ≠ .single → prplPath ns buf (clampCount ns count) = p →
      ¬ Stray ns buf count := fun p hne hp hs => hne (hp.symm.trans hs.1)
  unfold nvmePrplXfer
  dsimp only
  rcases hp : prplPath ns buf (clampCount ns count) with _ | _ | l | l <;> rw [hp] at hdirect
  · by_cases hs : Stray ns buf count
    · rw [nvmeIoXfer, if_pos ((misaligned_iff _ _).mpr (.inl hs.2))]
      refine Leads.seq (goes_note rfl) (fun _ _ h => h) fun _ y hy => ?_
      rw [hy]
      exact goes_ret (.stray hs rfl (.warned _ .nil))
    · exact hdirect trivial hs
  · exact hdirect trivial (hother _ (by simp) hp)
  · exact .dmaBuffer (Goes.after keeps_setMem fun _ => hdirect trivial (hother _ (by simp) hp))
  · have hs := hother _ (by simp) hp
    refine .dmaBuffer (Goes.after keeps_setMem fun _ => (goes_bounceXfer hdma).mono
      (fun res y h => .moved hs h.1 ?_) fun _ _ h => ⟨hs, h⟩)
    rw [movedBlocks_bounce hp]
    exact h.2

/-! ### The loops -/

section
variable (ns : NvmeNamespace)

/-- The block loop over buffer `sg` from block `id` on, with this fuel, on the submission ring `sq`: the
    answers it sees, and how it ends. -/
inductive Walks (sg : Buf) : Nat → Nat → NvmeSq → List Answer → Except Halt Int → Prop where
  | done {fuel id : Nat} {sq} : blockCount ns sg ≤ (id : Int) → Walks sg fuel id sq [] (.ok 0)
  | short {id : Nat} {sq} : (id : Int) < blockCount ns sg → Walks sg 0 id sq [] (.error .fuel)
  | stray {fuel id : Nat} {sq} : (id : Int) < blockCount ns sg → StrayAt ns sg id →
      Walks sg (fuel + 1) id sq [] (.ok (-1))
  | full {fuel id : Nat} {sq} : (id : Int) < blockCount ns sg → ¬ StrayAt ns sg id → sq.Full →
      Walks sg (fuel + 1) id sq [] (.error .nullSqe)
  | failed {fuel id : Nat} {sq r} : (id : Int) < blockCount ns sg → ¬ StrayAt ns sg id → ¬ sq.Full →
      ¬ r.Good → Walks sg (fuel + 1) id sq [r] (.ok (-1))
  | next {fuel id : Nat} {sq r rs res} : (id : Int) < blockCount ns sg → ¬ StrayAt ns sg id → ¬ sq.Full →
      r.Good → Walks sg fuel (id + stride ns sg id) (sq.answer r) rs res → Walks sg (fuel + 1) id sq (r :: rs) res

/-- The buffer loop: the answers for each buffer it turned to. -/
inductive WalksBufs (fuel : Nat) : List Buf → NvmeSq → List (Buf × List Answer) → Except Halt Int → Prop where
  | nil {sq} : WalksBufs fuel [] sq [] (.ok 0)
  | stop {sg bufs sq rs res} : Walks ns sg fuel 0 sq rs res → res ≠ .ok 0 →
      WalksBufs fuel (sg :: bufs) sq [(sg, rs)] res
  | next {sg bufs sq rs gs res} : Walks ns sg fuel 0 sq rs (.ok 0) →
      WalksBufs fuel bufs (sq.after rs) gs res → WalksBufs fuel (sg :: bufs) sq ((sg, rs) :: gs) res

end

theorem goes_xferBlocks (hB : GoodBlock ns.blockSize) (hdma : dma % 4096 = 0) :
    ∀ (fuel id : Nat) (x : Track), Goes dma x (xferBlocks ns sg write (blockCount ns sg) fuel id)
      (fun rc y => ∃ rs, Walks ns sg fuel id x.sq rs (.ok rc) ∧ Commanded x rs y)
      (fun e y => ∃ rs, Walks ns sg fuel id x.sq rs (.error e) ∧ Commanded x rs y) := by
  intro fuel
  induction fuel with
  | zero =>
    intro id x
    rw [xferBlocks]
    split
    · rename_i hid
      exact leads_halt (showing_stable dma) ⟨[], .short hid, .nil⟩
    · rename_i hid
      exact goes_ret ⟨[], .done (Int.not_lt.mp hid), .nil⟩
  | succ fuel ih =>
    intro id x
    rw [xferBlocks]
    split
    · rename_i hid
      refine Leads.seq (goes_prplXfer hB hdma (remaining_le ns sg id)) ?_ fun res y hy => ?_
      · rintro e y ⟨hs, rfl, hfull, rfl⟩
        exact ⟨[], .full hid hs hfull, .nil⟩
      rcases hy with ⟨hs, rfl, hy⟩ | ⟨hs, hroom, r, hy, ⟨hok, rfl⟩ | ⟨hbad, rfl⟩⟩
      · rw [if_pos (by decide)]
        exact goes_ret ⟨[], .stray hid hs, hy⟩
      · rw [if_neg (by omega)]
        refine (ih _ y).mono ?_ ?_ <;>
        · rintro res z ⟨rs, hrest, hz⟩
          rw [hy.sq] at hrest
          exact ⟨r :: rs, .next hid hs hroom hok hrest, hy.trans hz⟩
      · rw [if_pos (by decide)]
        exact goes_ret ⟨[r], .failed hid hs hroom hbad, hy⟩
    · rename_i hid
      exact goes_ret ⟨[], .done (Int.not_lt.mp hid), .nil⟩

/-- Buffers turned to, each with its commands. -/
inductive Accounted (x : Track) : List (Buf × List Answer) → Track → Prop where
  | nil : Accounted x [] x
  | buf {gs y sg rs z} : Accounted x gs y → Commanded ⟨.sg sg :: y.doings, y.sq⟩ rs z →
      Accounted x (gs ++ [(sg, rs)]) z

def allAnswers (gs : List (Buf × List Answer)) : List Answer := gs.flatMap (·.2)

variable {gs gs' : List (Buf × List Answer)} {bufs : List Buf} {res : Except Halt Int} {sq : NvmeSq}

theorem Accounted.trans (h : Accounted x gs y) (h' : Accounted y gs' z) : Accounted x (gs ++ gs') z := by
  induction h' with
  | nil => rwa [List.append_nil]
  | buf _ hc ih =>
    rw [← List.append_assoc]
    exact .buf ih hc

theorem Accounted.heads (h : Accounted x gs y) :
    heads y.doings = heads x.doings ++ (allAnswers gs).filterMap Answer.head? := by
  induction h with
  | nil => simp [allAnswers]
  | buf _ hc ih =>
    have hsg : ∀ sg l, Nvme.heads (.sg sg :: l) = Nvme.heads l := fun _ _ => rfl
    rw [hc.heads, hsg, ih]
    simp [allAnswers]

theorem Walks.result (h : Walks ns sg fuel id sq rs res) :
    res = .ok 0 ∨ res = .ok (-1) ∨ ∃ e, res = .error e := by
  induction h with
  | done => exact .inl rfl
  | next _ _ _ _ _ ih => exact ih
  | stray | failed => exact .inr (.inl rfl)
  | short | full => exact .inr (.inr ⟨_, rfl⟩)

theorem goes_xferBufs (hB : GoodBlock ns.blockSize) (hdma : dma % 4096 = 0) :
    ∀ (bufs : List Buf) (x : Track), Goes dma x (xferBufs ns write fuel bufs)
      (fun rc y => ∃ gs, WalksBufs ns fuel bufs x.sq gs (.ok rc) ∧ Accounted x gs y)
      (fun e y => ∃ gs, WalksBufs ns fuel bufs x.sq gs (.error e) ∧ Accounted x gs y) := by
  intro bufs
  induction bufs with
  | nil => exact fun x => goes_ret ⟨[], .nil, .nil⟩
  | cons sg bufs ih =>
    intro x
    rw [xferBufs]
    refine Leads.seq (goes_note rfl) (fun _ _ h => h) ?_
    rintro _ _ rfl
    refine Leads.seq (goes_xferBlocks hB hdma fuel 0 _) ?_ ?_
    · rintro e y ⟨rs, hw, hc⟩
      exact ⟨[(sg, rs)], .stop hw (by simp), .buf .nil hc⟩
    rintro rc y ⟨rs, hw, hc⟩
    have hone : Accounted x [(sg, rs)] y := .buf .nil hc
    have hsq : y.sq = x.sq.after rs := hc.sq
    rcases hw.result with hok | hbad | ⟨e, herr⟩
    · obtain rfl := Except.ok.inj hok
      rw [if_neg (by decide)]
      refine (ih y).mono ?_ ?_ <;>
      · rintro res z ⟨gs, hws, hacc⟩
        rw [hsq] at hws
        exact ⟨(sg, rs) :: gs, .next hw hws, hone.trans hacc⟩
    · obtain rfl := Except.ok.inj hbad
      rw [if_pos (by decide)]
      exact goes_ret ⟨[(sg, rs)], .stop hw (by decide), hone⟩
    · cases herr

theorem WalksBufs.result (h : WalksBufs ns fuel bufs sq gs res) :
    res = .ok 0 ∨ res = .ok (-1) ∨ ∃ e, res = .error e := by
  induction h with
  | nil => exact .inl rfl
  | stop h _ => exact h.result
  | next _ _ ih => exact ih

/-- The request notified, if the loops came to their end. -/
def Track.notified (x : Track) (id : Nat) (rc : Int) : Track :=
  if rc = 0 then ⟨.done id .successful :: x.doings, x.sq⟩ else x

theorem Track.heads_notified (x : Track) (id : Nat) (rc : Int) :
    Nvme.heads (x.notified id rc).doings = Nvme.heads x.doings := by
  unfold Track.notified
  split <;> rfl

/-- COURSE RULE: how `nvmedisk_read` and `nvmedisk_write` end, whatever the device does. -/
theorem goes_nvmediskXfer (hB : GoodBlock ns.blockSize) (hdma : dma % 4096 = 0) (nvmed : Nvmedisk)
    (req : BlkdevRequest) :
    Goes dma x (nvmediskXfer ns write fuel nvmed req)
      (fun rc y => ∃ gs z, WalksBufs ns fuel req.bufs x.sq gs (.ok rc) ∧ Accounted x gs z ∧
        y = z.notified req.id rc)
      (fun e y => ∃ gs, WalksBufs ns fuel req.bufs x.sq gs (.error e) ∧ Accounted x gs y) := by
  refine Leads.seq (goes_xferBufs hB hdma req.bufs x) (fun _ _ h => h) ?_
  rintro rc z ⟨gs, hw, hacc⟩
  rcases hw.result with hok | hbad | ⟨e, herr⟩
  · obtain rfl := Except.ok.inj hok
    rw [if_neg (by decide)]
    refine Leads.seq (goes_note rfl) (fun _ _ h => h) ?_
    rintro _ _ rfl
    exact goes_ret ⟨gs, z, hw, hacc, rfl⟩
  · obtain rfl := Except.ok.inj hbad
    rw [if_pos (by decide)]
    exact goes_ret ⟨gs, z, hw, hacc, rfl⟩
  · cases herr

/-! ### When the loops come to their end -/

/-- How many commands the block loop submits from block `id` on, in so many steps at most. -/
def commandCount (ns : NvmeNamespace) (sg : Buf) : Nat → Nat → Nat
  | 0, _ => 0
  | steps + 1, id =>
    if (id : Int) < blockCount ns sg then commandCount ns sg steps (id + stride ns sg id) + 1 else 0

/-- The commands of a request. -/
def requestCount (ns : NvmeNamespace) (bufs : List Buf) : Nat :=
  (bufs.map fun sg => commandCount ns sg (blockCount ns sg).toNat 0).sum

/-- What the walk needs of a buffer: no chunk is handed over misaligned, and each moves a block. -/
def Walkable (ns : NvmeNamespace) (sg : Buf) : Prop :=
  ∀ id, Visits ns sg 0 id → ¬ StrayAt ns sg id ∧ 1 ≤ stride ns sg id

/-- A loop that does not move does not end well. -/
theorem Walks.moves (h : Walks ns sg fuel id sq rs (.ok 0)) (hid : (id : Int) < blockCount ns sg) :
    1 ≤ stride ns sg id := by
  generalize hres : (Except.ok 0 : Except Halt Int) = res at h
  induction h with
  | done hle => omega
  | next _ _ _ _ _ ih =>
    by_contra hzero
    rw [show stride ns sg _ = 0 by omega] at ih
    exact hzero (ih hid hres)
  | _ => cases hres

theorem Walks.visits {id' : Nat} (h : Walks ns sg fuel id sq rs (.ok 0)) (hv : Visits ns sg id id') :
    ¬ StrayAt ns sg id' ∧ 1 ≤ stride ns sg id' := by
  refine hv.meets (P := fun id => ∃ fuel sq rs, Walks ns sg fuel id sq rs (.ok 0))
    (Q := fun id => ¬ StrayAt ns sg id ∧ 1 ≤ stride ns sg id) ⟨fuel, sq, rs, h⟩ ?_
  rintro id ⟨fuel, sq, rs, h⟩ hid
  have hmove := h.moves hid
  cases h with
  | done hle => omega
  | next _ hs _ _ hrest => exact ⟨⟨hs, hmove⟩, _, _, _, hrest⟩

theorem Walks.good (h : Walks ns sg fuel id sq rs (.ok 0)) : ∀ r ∈ rs, r.Good := by
  generalize hres : (Except.ok 0 : Except Halt Int) = res at h
  induction h with
  | done => simp
  | next _ _ _ hok _ ih => exact List.forall_mem_cons.mpr ⟨hok, ih hres⟩
  | _ => cases hres

theorem Walks.length (h : Walks ns sg fuel id sq rs (.ok 0)) :
    ∀ n : Nat, blockCount ns sg ≤ (id : Int) + n → rs.length = commandCount ns sg n id := by
  generalize hres : (Except.ok 0 : Except Halt Int) = res at h
  induction h with
  | done hle =>
    intro n _
    cases n with
    | zero => rfl
    | succ n => rw [commandCount, if_neg (by omega)]; rfl
  | @next fuel id sq r rs res hid hs hroom hok hrest ih =>
    intro n hn
    subst hres
    have hone := (Walks.next hid hs hroom hok hrest).moves hid
    cases n with
    | zero => omega
    | succ n =>
      rw [commandCount, if_pos hid, List.length_cons, ih rfl n (by push_cast at hn ⊢; omega)]
  | _ => cases hres

/-- Every command found its entry. -/
theorem Walks.roomy (h : Walks ns sg fuel id sq rs (.ok 0)) :
    sq.HasRoom rs.length (rs.filterMap Answer.head?) := by
  generalize hres : (Except.ok 0 : Except Halt Int) = res at h
  induction h with
  | done => trivial
  | @next _ _ _ r _ _ _ _ hroom hok _ ih =>
    cases r with
    | taken head sf => exact ⟨hroom, ih hres⟩
    | late => exact hok.elim
  | _ => cases hres

/-- Room for the commands of one buffer and then for those of the next. -/
theorem NvmeSq.hasRoom_append {m : Nat} {hs : List Nat} (hok : ∀ r ∈ rs, r.Good) :
    sq.HasRoom (rs.length + m) (rs.filterMap Answer.head? ++ hs) ↔
      sq.HasRoom rs.length (rs.filterMap Answer.head?) ∧ (sq.after rs).HasRoom m hs := by
  induction rs generalizing sq with
  | nil => simp [HasRoom, NvmeSq.after]
  | cons r rs ih =>
    obtain ⟨hr, hrs⟩ := List.forall_mem_cons.mp hok
    cases r with
    | late => exact hr.elim
    | taken head sf =>
      rw [List.length_cons, Nat.add_right_comm]
      exact (and_congr_right fun _ => ih hrs).trans and_assoc.symm

/-- A loop that ends with an error met a stray chunk or a command that failed. -/
theorem Walks.refused (h : Walks ns sg fuel id sq rs (.ok (-1))) :
    ¬ ((∀ id', Visits ns sg id id' → ¬ StrayAt ns sg id' ∧ 1 ≤ stride ns sg id') ∧ ∀ r ∈ rs, r.Good) := by
  generalize hres : (Except.ok (-1) : Except Halt Int) = res at h
  induction h with
  | stray hid hs => exact fun h => (h.1 _ (.here hid)).1 hs
  | failed _ _ _ hbad => exact fun h => hbad (h.2 _ (List.mem_singleton.mpr rfl))
  | next hid _ _ _ _ ih =>
    rintro ⟨hwalk, hok⟩
    exact ih hres ⟨fun id' hv => hwalk id' (.next hid hv), (List.forall_mem_cons.mp hok).2⟩
  | done => cases hres
  | _ => cases hres

/-- With fuel, a walk without stray chunks, an entry for each command and commands that succeed, the
    block loop comes to its end. -/
theorem Walks.finished {m : Nat} {hs : List Nat} (h : Walks ns sg fuel id sq rs res)
    (hfuel : blockCount ns sg ≤ (id : Int) + fuel)
    (hwalk : ∀ id', Visits ns sg id id' → ¬ StrayAt ns sg id' ∧ 1 ≤ stride ns sg id')
    (hok : ∀ r ∈ rs, r.Good) : ∀ n : Nat, blockCount ns sg ≤ (id : Int) + n →
      sq.HasRoom (commandCount ns sg n id + m) (rs.filterMap Answer.head? ++ hs) → res = .ok 0 := by
  induction h with
  | done => exact fun _ _ _ => rfl
  | short hid => omega
  | stray hid hs => exact absurd hs (hwalk _ (.here hid)).1
  | failed _ _ _ hbad => exact absurd (hok _ (List.mem_singleton.mpr rfl)) hbad
  | full hid _ hfull =>
    intro n hn hroom
    cases n with
    | zero => omega
    | succ n =>
      rw [commandCount, if_pos hid, Nat.add_right_comm] at hroom
      exact absurd hfull hroom.not_full
  | @next fuel id sq r rs res hid _ _ _ _ ih =>
    intro n hn hroom
    have hone := (hwalk id (.here hid)).2
    obtain ⟨hr, hrs⟩ := List.forall_mem_cons.mp hok
    cases n with
    | zero => omega
    | succ n =>
      rw [commandCount, if_pos hid, Nat.add_right_comm] at hroom
      cases r with
      | late => exact hr.elim
      | taken head sf =>
        exact ih (by push_cast at hfuel ⊢; omega) (fun id' hv => hwalk id' (.next hid hv)) hrs n
          (by push_cast at hn ⊢; omega) hroom.2

theorem requestCount_cons (sg : Buf) (bufs : List Buf) : requestCount ns (sg :: bufs) =
    commandCount ns sg (blockCount ns sg).toNat 0 + requestCount ns bufs := List.sum_cons

theorem allAnswers_cons (g : Buf × List Answer) (gs : List (Buf × List Answer)) :
    allAnswers (g :: gs) = g.2 ++ allAnswers gs := List.flatMap_cons

/-- What a finished request tells. -/
structure Passed (ns : NvmeNamespace) (bufs : List Buf) (sq : NvmeSq) (gs : List (Buf × List Answer)) :
    Prop where
  walk : ∀ sg ∈ bufs, Walkable ns sg
  good : ∀ r ∈ allAnswers gs, r.Good
  count : (allAnswers gs).length = requestCount ns bufs
  room : sq.HasRoom (requestCount ns bufs) ((allAnswers gs).filterMap Answer.head?)

theorem WalksBufs.passed (h : WalksBufs ns fuel bufs sq gs (.ok 0)) : Passed ns bufs sq gs := by
  generalize hres : (Except.ok 0 : Except Halt Int) = res at h
  induction h with
  | nil => exact ⟨by simp, by simp [allAnswers], rfl, trivial⟩
  | stop _ hne => exact absurd hres.symm hne
  | @next sg bufs sq rs gs res h _ ih =>
    obtain ⟨hwalk, hgood, hcount, hroom⟩ := ih hres
    have hlen := h.length (blockCount ns sg).toNat (by omega)
    have hgood' : ∀ r ∈ allAnswers ((sg, rs) :: gs), r.Good := by
      rw [allAnswers_cons]
      exact List.forall_mem_append.mpr ⟨h.good, hgood⟩
    refine ⟨List.forall_mem_cons.mpr ⟨fun id hv => h.visits hv, hwalk⟩, hgood', ?_, ?_⟩
    · rw [allAnswers_cons, List.length_append, hcount, requestCount_cons, hlen]
    · rw [requestCount_cons, allAnswers_cons, List.filterMap_append, ← hlen]
      exact (NvmeSq.hasRoom_append h.good).mpr ⟨h.roomy, hroom⟩

theorem WalksBufs.refused (h : WalksBufs ns fuel bufs sq gs (.ok (-1))) :
    ¬ ((∀ sg ∈ bufs, Walkable ns sg) ∧ ∀ r ∈ allAnswers gs, r.Good) := by
  generalize hres : (Except.ok (-1) : Except Halt Int) = res at h
  induction h with
  | nil => cases hres
  | @stop sg bufs sq rs res h _ =>
    subst hres
    rintro ⟨hwalk, hok⟩
    rw [allAnswers_cons] at hok
    exact h.refused ⟨hwalk sg (List.mem_cons_self ..), (List.forall_mem_append.mp hok).1⟩
  | next _ _ ih =>
    rintro ⟨hwalk, hok⟩
    rw [allAnswers_cons] at hok
    exact ih hres ⟨fun b hb => hwalk b (List.mem_cons_of_mem _ hb), (List.forall_mem_append.mp hok).2⟩

theorem WalksBufs.finished (h : WalksBufs ns fuel bufs sq gs res) (hfuel : 2147483647 ≤ fuel)
    (hwalk : ∀ sg ∈ bufs, Walkable ns sg) (hok : ∀ r ∈ allAnswers gs, r.Good)
    (hroom : sq.HasRoom (requestCount ns bufs) ((allAnswers gs).filterMap Answer.head?)) : res = .ok 0 := by
  have hbound : ∀ sg, blockCount ns sg ≤ ((0 : Nat) : Int) + fuel := by
    intro sg
    rw [blockCount, s32]
    split <;> omega
  induction h with
  | nil => rfl
  | @stop sg bufs sq rs res h hne =>
    rw [requestCount_cons, allAnswers_cons, List.filterMap_append] at hroom
    rw [allAnswers_cons] at hok
    exact h.finished (hbound sg) (hwalk sg (List.mem_cons_self ..)) (List.forall_mem_append.mp hok).1 _
      (by omega) hroom
  | @next sg bufs sq rs gs res h _ ih =>
    rw [requestCount_cons, allAnswers_cons, List.filterMap_append,
      ← h.length (blockCount ns sg).toNat (by omega)] at hroom
    rw [allAnswers_cons] at hok
    exact ih (fun b hb => hwalk b (List.mem_cons_of_mem _ hb)) (List.forall_mem_append.mp hok).2
      ((NvmeSq.hasRoom_append h.good).mp hroom).2

end Nvme
