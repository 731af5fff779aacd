import NvmeDisk.Requests.Course
import NvmeDisk.Requests.Geometry

/-! `rtems_blkdev_request_done`: the issuer of a request waits for it, and it is called in one place
    only, where the loops of `nvmedisk_read` and `nvmedisk_write` have come to their end. Every other
    way out of `nvmedisk_ioctl` leaves the issuer waiting; this says which requests take one. -/

namespace Nvme
open Ring Resume Bytes BlockDev

/-- The notifications given for request `id`. -/
def dones (id : Nat) (items : List Item) : List RtemsStatusCode :=
  items.filterMap fun
    | .done req sc => if req = id then some sc else none
    | .buf _ _ => none

/-- The commands submitted. -/
def commands (items : List Item) : List Cmd :=
  items.flatMap fun
    | .buf _ cmds => cmds
    | .done _ _ => []

/-- The call has returned, and on its account request `id` was answered once, with success if and only
    if every command of it succeeded; `own k` is the status field the `k`-th command was completed with,
    if it was. -/
def Answered (id : Nat) (own : Nat → Option Nat) (old : List Item) (v : World) (p : Drv Int) : Prop :=
  ∃ rc items sc, p = .ret rc ∧ ledger v.log = items ++ old ∧ dones id items = [sc] ∧
    (sc = .successful ↔ ∀ k < (commands items).length, own k = some 0)

/-- A request the code can see through: a known operation; no block of it handed to the device where
    it is, although misaligned; a step of the loop moves at least one block. -/
structure Passes (ns : NvmeNamespace) (r : BlkdevRequest) : Prop where
  op : r.req = .read ∨ r.req = .write
  walk : ∀ sg ∈ r.bufs, Walkable ns sg

/-- An entry with status code 0 was taken for the command, in time. -/
def Cmd.Good (c : Cmd) : Prop := ∃ sf, c.sf = some sf ∧ sf % 256 = 0

/-- Such an entry for every command of the request: the driver does not look at command ids. -/
def Served (old : List Item) (v : World) : Prop :=
  ∀ items, ledger v.log = items ++ old → ∀ c ∈ commands items, c.Good

/-- How a request of a known operation is answered, `hs` being the heads polled. -/
inductive AnswersAs (ns : NvmeNamespace) (r : BlkdevRequest) (sq : NvmeSq) (hs : List Nat) (old : List Item)
    (v : World) : Drv Int → Prop where
  | success {items} : ledger v.log = (.done r.id .successful :: items) ++ old → dones r.id items = [] →
      (commands items).length = requestCount ns r.bufs → (∀ sg ∈ r.bufs, Walkable ns sg) →
      sq.HasRoom (requestCount ns r.bufs) hs → (∀ c ∈ commands items, c.Good) →
      AnswersAs ns r sq hs old v (.ret 0)
  | not {rc items} : rc ≠ 0 → ledger v.log = items ++ old → dones r.id items = [] →
      ¬ ((∀ sg ∈ r.bufs, Walkable ns sg) ∧ ∀ c ∈ commands items, c.Good) →
      AnswersAs ns r sq hs old v (.ret rc)
  | stopped {e items} : ledger v.log = items ++ old → dones r.id items = [] →
      ¬ ((∀ sg ∈ r.bufs, Walkable ns sg) ∧ sq.HasRoom (requestCount ns r.bufs) hs ∧
        ∀ c ∈ commands items, c.Good) → AnswersAs ns r sq hs old v (.halt e)

variable {mayFail : Nat → Bool} {ns : NvmeNamespace} {sg : Buf} {write : Bool} {w v : World}
  {r : BlkdevRequest} {L C : Nat} {y z : Track} {rs : List Answer} {as : List (Buf × List Answer)}
  {evs : List Event} {nvmed : Nvmedisk} {ioctl : Nat → Drv Int} {fuel : Nat} {p : Drv Int}

/-! ### The account of a request -/

theorem Answer.good_iff (a : Answer) : a.Good ↔ ∃ sf, a.sf? = some sf ∧ sf % 256 = 0 := by
  cases a <;> simp [Good, sf?]

/-- The account of the buffers turned to. -/
theorem Accounted.ledger (h : Accounted y as z) (id : Nat) : ∃ items,
    ledger z.doings = items ++ ledger y.doings ∧ dones id items = [] ∧
      (commands items).length = (allAnswers as).length ∧
      ((∀ c ∈ commands items, c.Good) ↔ ∀ a ∈ allAnswers as, a.Good) := by
  induction h with
  | nil => exact ⟨[], rfl, rfl, rfl, by simp [commands, allAnswers]⟩
  | @buf as z sg rs z' _ hc ih =>
    obtain ⟨items, hitems, hdones, hlen, hgood⟩ := ih
    obtain ⟨cmds, hled, hsf⟩ := hc.ledger
    have hcmds : commands (.buf sg cmds :: items) = cmds ++ commands items := rfl
    have has : allAnswers (as ++ [(sg, rs)]) = allAnswers as ++ rs := by simp [allAnswers]
    have hsame : cmds.length = rs.length := by
      have := congrArg List.length hsf
      simpa using this
    have hone : (∀ c ∈ cmds, c.Good) ↔ ∀ a ∈ rs, a.Good := by
      have hall : (∀ o ∈ cmds.map (·.sf), ∃ sf, o = some sf ∧ sf % 256 = 0) ↔
          ∀ o ∈ (rs.map Answer.sf?).reverse, ∃ sf, o = some sf ∧ sf % 256 = 0 := by
        rw [hsf]
      simpa only [List.forall_mem_map, List.mem_reverse, ← Answer.good_iff, Cmd.Good] using hall
    refine ⟨.buf sg cmds :: items, ?_, hdones, ?_, ?_⟩
    · rw [hled, Nvme.ledger, hitems]
      simp [onTop]
    · rw [hcmds, has, List.length_append, List.length_append, hsame, hlen, Nat.add_comm]
    · rw [hcmds, has, List.forall_mem_append, List.forall_mem_append, hone, hgood, and_comm]

/-- The completions polled since `w`, from what the world shows. -/
theorem Accounted.since (h : Accounted ⟨doings w.log, (w.q .io).sq⟩ as z)
    (hz : Nvme.heads v.log = Nvme.heads z.doings) (hevs : v.log = evs ++ w.log) :
    Nvme.heads evs = (allAnswers as).filterMap Answer.head? := by
  have := h.heads
  rw [← hz, hevs, heads_append, heads_doings] at this
  exact List.append_cancel_left this

/-! ### The call -/

/-- An operation the code does not know is not answered. -/
theorem unknown_unanswered {own : Nat → Option Nat} (hop : ¬ (r.req = .read ∨ r.req = .write))
    (hrun : Steps AnyDevice w (nvmediskIoctl ns ioctl fuel nvmed (.blkioRequest r)) v p) :
    ¬ Answered r.id own (ledger w.log) v p := by
  obtain ⟨code, hcode⟩ : ∃ code, r.req = .other code := by
    cases h : r.req with
    | read => exact absurd (.inl h) hop
    | write => exact absurd (.inr h) hop
    | other code => exact ⟨code, rfl⟩
  have hkeeps : (nvmediskIoctl ns ioctl fuel nvmed (.blkioRequest r)).Keeps
      (Showing w.sys.nvmeDmaBuffer ⟨doings w.log, (w.q .io).sq⟩) := by
    simp only [nvmediskIoctl, hcode]
    exact .bind (.modify fun u hu => ⟨hu.doings, hu.sq, hu.dma⟩) fun _ => .ret
  have hwp := wp_keeps (showing_stable _ _) hkeeps ⟨rfl, rfl, rfl⟩
  rintro ⟨rc, items, sc, rfl, hitems, hdones, _⟩
  have hdoings : doings v.log = doings w.log := (hwp v _ hrun).2.doings
  have hnone : items = [] := by
    have : ledger v.log = ledger w.log := by rw [← ledger_doings, hdoings, ledger_doings]
    rw [hitems] at this
    exact List.append_left_eq_self.mp this
  rw [hnone] at hdones
  cases hdones

/-- Any device, and `nvmedisk_read` or `nvmedisk_write` come to an end. -/
theorem nvmediskXfer_ended (hns : Accepted ns) (hdma : w.sys.nvmeDmaBuffer % 4096 = 0)
    (hfuel : 2147483647 ≤ fuel) (hrun : Steps AnyDevice w (nvmediskXfer ns write fuel nvmed r) v p)
    (hend : p.Final) (hevs : v.log = evs ++ w.log) :
    AnswersAs ns r (w.q .io).sq (heads evs) (ledger w.log) v p := by
  have hcourse := (goes_nvmediskXfer hns.goodBlock hdma nvmed r w
    (show Showing w.sys.nvmeDmaBuffer ⟨doings w.log, (w.q .io).sq⟩ w from ⟨rfl, rfl, rfl⟩) v p hrun).2
  have hlog : ∀ {u : Track}, Showing w.sys.nvmeDmaBuffer u v →
      ledger v.log = ledger u.doings ∧ heads v.log = heads u.doings := fun hv => by
    rw [← hv.doings, ledger_doings, heads_doings]
    exact ⟨rfl, rfl⟩
  cases p with
  | atom f k => exact hend.elim
  | halt e =>
    obtain ⟨z, ⟨as, hwalks, hacc⟩, hv⟩ := hcourse
    obtain ⟨items, hitems, hdones, _, hgood⟩ := hacc.ledger r.id
    rw [← (hlog hv).1, ledger_doings] at hitems
    refine .stopped hitems hdones ?_
    rintro ⟨hwalk, hroom, hcmds⟩
    rw [hacc.since (hlog hv).2 hevs] at hroom
    cases hwalks.finished hfuel hwalk (hgood.mp hcmds) hroom
  | ret rc =>
    obtain ⟨_, ⟨as, z, hwalks, hacc, rfl⟩, hv⟩ := hcourse
    obtain ⟨items, hitems, hdones, hlen, hgood⟩ := hacc.ledger r.id
    rw [ledger_doings] at hitems
    have hheads := hacc.since ((hlog hv).2.trans (Track.heads_notified z r.id rc)) hevs
    by_cases hrc : rc = 0
    · subst hrc
      obtain ⟨hwalk, hok, hcount, hroom⟩ := hwalks.passed
      rw [← hheads] at hroom
      refine .success ?_ hdones (hlen.trans hcount) hwalk hroom (hgood.mpr hok)
      rw [(hlog hv).1, Track.notified, if_pos rfl, Nvme.ledger, hitems]
      rfl
    · rcases hwalks.result with hok | hbad | ⟨e, herr⟩
      · exact absurd (Except.ok.inj hok) hrc
      · obtain rfl := Except.ok.inj hbad
        refine .not hrc ?_ hdones fun h => hwalks.refused ⟨h.1, hgood.mp h.2⟩
        rw [(hlog hv).1, Track.notified, if_neg hrc, hitems]
      · cases herr

/-- CORRECT: under any device, a call that has ended answered its request once, with success exactly if
    every command succeeded, if and only if the request passes, each command of it finds an entry on the
    submission ring and has an entry with status code 0 taken for it, and they all succeeded. -/
theorem answered_iff {own : Nat → Option Nat} (hns : Accepted ns) (hdma : w.sys.nvmeDmaBuffer % 4096 = 0)
    (hfuel : 2147483647 ≤ fuel)
    (hrun : Steps AnyDevice w (nvmediskIoctl ns ioctl fuel nvmed (.blkioRequest r)) v p)
    (hend : p.Final) (hevs : v.log = evs ++ w.log) :
    Answered r.id own (ledger w.log) v p ↔ Passes ns r ∧
      (w.q .io).sq.HasRoom (requestCount ns r.bufs) (heads evs) ∧ Served (ledger w.log) v ∧
      ∀ k < requestCount ns r.bufs, own k = some 0 := by
  by_cases hop : r.req = .read ∨ r.req = .write
  case neg => exact iff_of_false (unknown_unanswered hop hrun) fun h => hop h.1.op
  obtain ⟨write, hwrite⟩ : ∃ write, r.req = reqOp write := by
    rcases hop with h | h
    · exact ⟨false, h⟩
    · exact ⟨true, h⟩
  rw [nvmediskIoctl_xfer ioctl nvmed hwrite] at hrun
  have hnone : ∀ {items}, ledger v.log = items ++ ledger w.log → dones r.id items = [] →
      ¬ Answered r.id own (ledger w.log) v p := by
    rintro items hled hdones ⟨_, items', sc, _, hitems', hdones', _⟩
    rw [← List.append_cancel_right (hled.symm.trans hitems'), hdones] at hdones'
    cases hdones'
  cases nvmediskXfer_ended hns hdma hfuel hrun hend hevs with
  | @success items hled hdones hcount hwalk hroom hgood =>
    have hsame : commands (.done r.id .successful :: items) = commands items := rfl
    have hone : dones r.id (.done r.id .successful :: items) = [.successful] := by
      simp only [Nvme.dones, List.filterMap_cons, if_pos] at hdones ⊢
      rw [hdones]
    constructor
    · rintro ⟨_, items', sc, _, hitems', hdones', hsc⟩
      obtain rfl : .done r.id .successful :: items = items' :=
        List.append_cancel_right (hled.symm.trans hitems')
      rw [hone] at hdones'
      rw [hsame, hcount] at hsc
      refine ⟨⟨hop, hwalk⟩, hroom, fun items'' h'' => ?_, hsc.mp (List.cons.inj hdones').1.symm⟩
      rw [← List.append_cancel_right (hled.symm.trans h'')]
      exact hgood
    · rintro ⟨_, _, _, hown⟩
      refine ⟨0, _, .successful, rfl, hled, hone, iff_of_true rfl ?_⟩
      rwa [hsame, hcount]
  | @not rc items _ hled hdones hnot =>
    exact iff_of_false (hnone hled hdones) fun ⟨hpass, _, hserved, _⟩ => hnot ⟨hpass.walk, hserved items hled⟩
  | @stopped e items hled hdones hnot =>
    exact iff_of_false (hnone hled hdones) fun ⟨hpass, hroom, hserved, _⟩ =>
      hnot ⟨hpass.walk, hroom, hserved items hled⟩

/-- The status fields the controller completed its commands with on the I/O queue, in order. -/
def postedStatus (v : World) (k : Nat) : Option Nat := ((v.q .io).ctl.done[k]?).map (·.sf)

/-- Read block 5, its one command completed before the first poll. -/
def answeredRun : World × Drv Int :=
  follow (nvmeMove noFail) (none :: oneCommand .io ++ [none]) sampleWorld
    (nvmediskIoctl sampleNs (fun _ => return 0) 2147483647 ⟨512, 1000⟩ (.blkioRequest readBlock))

theorem answered_iff_sample : answeredRun.2.value? = some 0 ∧ postedStatus answeredRun.1 0 = some 0 ∧
    (Answered 1 (postedStatus answeredRun.1) [] answeredRun.1 (.ret 0) ↔ Passes sampleNs readBlock ∧
      (sampleWorld.q .io).sq.HasRoom (requestCount sampleNs readBlock.bufs) (heads answeredRun.1.log) ∧
      Served [] answeredRun.1 ∧
      ∀ k < requestCount sampleNs readBlock.bufs, postedStatus answeredRun.1 k = some 0) := by
  have hns : Accepted sampleNs := ⟨⟨9, rfl⟩, by decide, ⟨1, rfl⟩⟩
  have hret : answeredRun.2.value? = some 0 := by decide +kernel
  have hrun := follow_ret hret fun _ _ h => anyDevice_of_nvmec h
  exact ⟨hret, by decide +kernel,
    answered_iff hns (by decide) (le_refl _) hrun trivial (List.append_nil _).symm⟩

/-! ### On rings that are powers of two -/

/-- With fuel for any count an `int` can hold, only a step that moves nothing uses the fuel up. -/
theorem enough_of_walk (hfuel : 2147483647 ≤ fuel) (hwalk : Walkable ns sg) : Enough ns sg fuel 0 := by
  refine ⟨?_, fun id hv => (hwalk id hv).2⟩
  rw [blockCount, s32]
  split <;> omega

/-- A controller following the rings frees an entry with each completion, so that there is room for all
    commands if there is for the first. -/
theorem hasRoom_iff_passable (hL : Pow2 L) (hC : Pow2 C) (hns : Accepted ns)
    (hdma : w.sys.nvmeDmaBuffer % 4096 = 0) (hq : Between L C w) (hfuel : 2147483647 ≤ fuel)
    (hrun : Steps (Nvmec mayFail) w (nvmediskXfer ns write fuel nvmed r) v p) (hend : p.Final)
    (hevs : v.log = evs ++ w.log) (hwalk : ∀ sg ∈ r.bufs, Walkable ns sg)
    (hserved : Served (ledger w.log) v) :
    (w.q .io).sq.HasRoom (requestCount ns r.bufs) (heads evs) ↔ Passable L C ns r.bufs w := by
  have : Fact (Pow2 L) := ⟨hL⟩
  have : Fact (Pow2 C) := ⟨hC⟩
  have haccount := (wp_account hns.goodBlock hdma hq nvmed r v p hrun).2
  cases nvmediskXfer_ended hns hdma hfuel (hrun.mono fun _ _ => anyDevice_of_nvmec) hend hevs with
  | success _ _ _ _ hroom _ =>
    obtain ⟨_, _, hqueue⟩ := haccount
    exact iff_of_true hroom (hqueue rfl)
  | @not rc items _ hled _ hnot => exact absurd ⟨hwalk, hserved items hled⟩ hnot
  | @stopped e items hled _ hnot =>
    exact iff_of_false (fun hroom => hnot ⟨hwalk, hroom, hserved items hled⟩) fun hqueue =>
      haccount ⟨hqueue, fun sg hsg => enough_of_walk hfuel (hwalk sg hsg)⟩

/-! ### A read the device refuses -/

/-- Read block 5; the command is completed with status code 2. -/
def refusedRun : World × Drv Int :=
  follow (nvmeMove codedFail) [none, none, none, none, some (.fetch .io), some (.fail .io 0 2),
      some (.post .io 0), none, none, none] sampleWorld
    (nvmediskIoctl sampleNs (fun _ => return 0) 2147483647 ⟨512, 1000⟩ (.blkioRequest readBlock))

/-- The call returns and no one was notified. -/
theorem refused_unanswered : Steps (Nvmec codedFail) sampleWorld
      (nvmediskIoctl sampleNs (fun _ => return 0) 2147483647 ⟨512, 1000⟩ (.blkioRequest readBlock))
      refusedRun.1 (.ret (-1)) ∧
    ¬ Answered 1 (postedStatus refusedRun.1) (ledger sampleWorld.log) refusedRun.1 (.ret (-1)) := by
  refine ⟨follow_ret (by decide +kernel) fun _ _ h => h, ?_⟩
  rintro ⟨_, items, sc, _, hitems, hdones, _⟩
  have hnone : dones 1 (ledger refusedRun.1.log) = [] := by decide +kernel
  have hledger : ledger refusedRun.1.log = items := hitems.trans (List.append_nil _)
  rw [hledger, hdones] at hnone
  cases hnone

end Nvme
