import NvmeDisk.Queue.Discipline

/-! Completions are matched to commands, and no submission slot is reused before the controller has
    taken it, in every run of any number of uses of the two queue pairs. Both follow from `Control`:
    the phase bit, the full test and the doorbell order appear only in what keeps it. -/

namespace Nvme
open Ring Resume Bytes BlockDev

/-! ### Freshly initialised queue pairs -/

/-- The controller's side of a pair it was just told about. -/
def freshCtl (L C : Nat) : CtlQueue := ⟨L, C, 0, 0, 0, [], []⟩

/-- A pair that `nvme_init_cq` and `nvme_init_sq` set up with these lengths. -/
def Initialised (L C : Nat) (q : QPair) : Prop :=
  ∃ q₀ stride sqIdx cqIdx sqe cqe, q₀.ctl = freshCtl L C ∧
    q = initSq (initCq q₀ stride cqIdx C cqe) stride sqIdx L sqe

def freshPair (i : QId) (L C : Nat) : QPair :=
  initSq (initCq ⟨⟨⟨0, 0⟩, 0, 0, 0⟩, ⟨⟨0, 0⟩, 0, 0, false⟩, fun _ => zeroSqe, fun _ => zeroCqe,
    freshCtl L C⟩ 4 (2 * i.sqId + 1) C 0) 4 (2 * i.sqId) L 0

theorem freshPair_initialised (i : QId) (L C : Nat) : Initialised L C (freshPair i L C) :=
  ⟨_, _, _, _, _, _, rfl, rfl⟩

/-- A world in which both pairs are freshly set up and nothing has happened yet. -/
def freshWorld (L C : QId → Nat) (s : Store) (y : Sys) (d : Device) : World where
  store := s
  q i := freshPair i (L i) (C i)
  sys := y
  reg := ⟨0, 0, 0, 0, 0, 0⟩
  dev := d
  log := []
  used := []

def sampleHeap : Mheap.Heap Site :=
  ⟨fun _ => none, 0, [], [], [], [], List.nodup_nil, by simp⟩

/-- A device of 1000 blocks and its driver data: bounce page at 2 MiB, up to 8 blocks a command. -/
def sampleSys : Sys :=
  ⟨0x200000, 1, fun _ => ⟨1, 1000, 512, 0, 8⟩, 4, 1, 0, sampleHeap⟩

def sampleDevice : Device := ⟨1, 512, 1000, fun _ _ _ => 7⟩

def sampleSqLen : QId → Nat
  | .admin => 64
  | .io => 2

def sampleCqLen : QId → Nat
  | .admin => 256
  | .io => 4

def sampleWorld : World :=
  freshWorld sampleSqLen sampleCqLen ⟨fun _ => 0, fun _ => 0⟩ sampleSys sampleDevice

theorem sampleSqLen_pow (i : QId) : Pow2 (sampleSqLen i) ∧ sampleSqLen i ≤ 65536 := by
  cases i
  · exact ⟨⟨6, by decide, rfl⟩, by decide⟩
  · exact ⟨⟨1, by decide, rfl⟩, by decide⟩

theorem sampleCqLen_pow (i : QId) : Pow2 (sampleCqLen i) ∧ sampleCqLen i ≤ 65536 := by
  cases i
  · exact ⟨⟨8, by decide, rfl⟩, by decide⟩
  · exact ⟨⟨2, by decide, rfl⟩, by decide⟩

/-- Read block `lba` into the page at 1 MiB. -/
def sampleUse (lba : Nat) : Use := ⟨.io, nvmeSqeOpcIoRead, 0, 0x100000, 0, 1, lba, 0, 0⟩

/-- The steps of one command that the controller completes before the first poll. -/
def oneCommand (i : QId) : List (Option Move) :=
  [none, none, none, some (.fetch i), some (.exec i 0), some (.post i 0), none, none, none]

/-- Two commands on the two-entry submission ring, both completed. -/
def sampleRun : World × Drv Unit :=
  follow (nvmeMove noFail) (oneCommand .io ++ oneCommand .io) sampleWorld
    (useQueues [sampleUse 5, sampleUse 6])

variable {mayFail : Nat → Bool} {w v : World} {i : QId} {L C : Nat} {D : List NvmeCqe}
  {e : NvmeSqe} {t : List Event}

theorem Initialised.idle {q : QPair} (h : Initialised L C q) (hL : Pow2 L) (hC : Pow2 C)
    (hL' : L ≤ 65536) (hC' : C ≤ 65536) : Idle L C [] q := by
  obtain ⟨q₀, stride, sqIdx, cqIdx, sqe, cqe, hctl, rfl⟩ := h
  exact {
    sqMask := initQueueCommon_mask _ _ _ hL.pos hL'
    cqMask := initQueueCommon_mask _ _ _ hC.pos hC'
    sqLen := by simp [initSq, initCq, hctl, freshCtl]
    cqLen := by simp [initSq, initCq, hctl, freshCtl]
    tail := by simp [initSq]
    head := by simp [initSq]
    sqDbl := by simp [initSq, initCq, hctl, freshCtl]
    taken := by simp [initSq, initCq, hctl, freshCtl]
    flight := by simp [initSq, initCq, hctl, freshCtl]
    done := by simp [initSq, initCq, hctl, freshCtl]
    cqHead := by simp [initSq, initCq]
    cqPhase := by simp [initSq, initCq, phase]
    cqDbl := by simp [initSq, initCq, hctl, freshCtl]
    fresh := by
      intro j _
      simp [QPair.tags, initSq, initCq, NvmeCqe.tag, NvmeCqe.dword3, zeroCqe, phase] }

theorem Initialised.settled (h : Initialised L C (w.q i)) (hL : Pow2 L) (hC : Pow2 C)
    (hL' : L ≤ 65536) (hC' : C ≤ 65536) (hlog : w.log = []) : Settled i L C w :=
  .rest [] ⟨h.idle hL hC hL' hC', by rw [hlog]; exact .nil, by rw [hlog]; exact .nil _ _⟩

/-! ### What each doing of the driver on a queue must look like -/

def Event.isConsumed : Event → Bool
  | .consumed _ _ _ => true
  | _ => false

/-- A doing of the driver on a queue, given those before it (newest first). -/
def DoneRight (L C : Nat) : Event → List Event → Prop
  | .commit _ slot _ tail, t =>
    slot = t.countP Event.isCommit % L ∧ tail = (t.countP Event.isCommit + 1) % L
  | .consumed _ head _, t => head = (t.countP Event.isConsumed + 1) % C
  | .copied i c, t => ∃ head slot e tail t',
      t = .consumed i head c :: .commit i slot e tail :: t' ∧ c.cid = e.cid
  | _, _ => True

def AllRight (L C : Nat) : List Event → Prop
  | [] => True
  | ev :: t => DoneRight L C ev t ∧ AllRight L C t

theorem AllRight.split {ev : Event} {post pre : List Event} (h : AllRight L C (post ++ ev :: pre)) :
    DoneRight L C ev pre := by
  induction post with
  | nil => exact h.1
  | cons _ post ih => exact ih h.2

theorem Rounds.consumes (h : Rounds i L C D t) : t.countP Event.isConsumed = D.length := by
  induction h with
  | nil => rfl
  | round e sf _ ih => simp [List.countP_cons, Event.isConsumed, consumedOf, committedOf, ih]

theorem Rounds.committed_right (h : Rounds i L C D t) : DoneRight L C (committedOf i L D e) t := by
  simp [DoneRight, committedOf, h.commits]

theorem Rounds.consumed_right (h : Rounds i L C D t) (sf : Nat) :
    DoneRight L C (consumedOf i L C D e sf) (committedOf i L D e :: t) := by
  simp [DoneRight, consumedOf, committedOf, Event.isConsumed, h.consumes]

theorem Rounds.allRight (h : Rounds i L C D t) : AllRight L C t := by
  induction h with
  | nil => trivial
  | round e sf h ih =>
    exact ⟨⟨_, _, e, _, _, rfl, rfl⟩, h.consumed_right sf, h.committed_right, ih⟩

theorem Control.allRight (h : Control i L C w) : AllRight L C (trail i w.log) := by
  cases h with
  | settled h =>
    cases h with
    | rest D h => exact h.rounds.allRight
    | stuck D e h =>
      obtain ⟨t, ht, hlog⟩ := h.rounds
      rw [hlog]
      exact ⟨trivial, ht.committed_right, ht.allRight⟩
  | busy D e h =>
    obtain ⟨t, ht, hlog⟩ := h.rounds
    rw [hlog]
    exact ⟨ht.committed_right, ht.allRight⟩
  | half D e sf h =>
    obtain ⟨t, ht, hlog⟩ := h.rounds
    rw [hlog]
    exact ⟨ht.consumed_right sf, ht.committed_right, ht.allRight⟩

/-! ### Completions -/

/-- The entry a copy event of queue `i` carries. -/
def Event.copy? (i : QId) : Event → Option NvmeCqe
  | .copied j c => if j = i then some c else none
  | _ => none

/-- The completion entries `nvme_wait` returned as ready on queue `i`, oldest first. -/
def copies (i : QId) (log : List Event) : List NvmeCqe := (log.filterMap (Event.copy? i)).reverse

theorem copies_trail (i : QId) (log : List Event) : copies i (trail i log) = copies i log := by
  rw [copies, copies, trail, List.filterMap_filter]
  congr 2
  funext ev
  cases ev <;> simp [Event.queue?, Event.copy?]

theorem copies_cons (i : QId) (ev : Event) (t : List Event) :
    copies i (ev :: t) = copies i t ++ (Event.copy? i ev).toList := by
  rw [copies, List.filterMap_cons]
  cases h : Event.copy? i ev <;> simp [copies]

theorem Rounds.copies (h : Rounds i L C D t) : copies i t = D := by
  induction h with
  | nil => rfl
  | round e sf _ ih =>
    simp [copies_cons, Event.copy?, consumedOf, committedOf, ih]

/-- The entries taken are the first ones posted. -/
theorem Control.copies_prefix (h : Control i L C w) : copies i w.log <+: (w.q i).ctl.done := by
  have hsent : ∀ {D e stamp}, Sent i L C D e stamp w → copies i (trail i w.log) = D →
      copies i w.log <+: (w.q i).ctl.done := by
    intro D e stamp h hc
    rw [← copies_trail, hc]
    obtain ⟨s, hout⟩ := h.out
    have hstage := hout.stage
    cases s with
    | queued => simp [hstage.2.2.1]
    | flying sf => simp [hstage.2.2.1]
    | posted sf => simp [hstage.2.2.1]
  cases h with
  | settled h =>
    cases h with
    | rest D h =>
      rw [← copies_trail, h.rounds.copies]
      simp [h.idle.done]
    | stuck D e h =>
      refine hsent h ?_
      obtain ⟨t, ht, hlog⟩ := h.rounds
      simp [hlog, copies_cons, Event.copy?, committedOf, ht.copies]
  | busy D e h =>
    refine hsent h ?_
    obtain ⟨t, ht, hlog⟩ := h.rounds
    simp [hlog, copies_cons, Event.copy?, committedOf, ht.copies]
  | half D e sf h =>
    obtain ⟨t, ht, hlog⟩ := h.rounds
    rw [← copies_trail, h.idle.done, hlog]
    simp [copies_cons, Event.copy?, committedOf, consumedOf, ht.copies]

/-- CORRECT: whatever the uses, the statuses and the timing, the completion entries returned are the
    first ones posted, in order and each once; and each is, unchanged, the entry polled before the
    doorbell write, with the command id of the command committed just before. -/
theorem completions_matched (mayFail : Nat → Bool) (L C : QId → Nat) (us : List Use) {w v : World}
    {p : Drv Unit} (hL : ∀ i, Pow2 (L i) ∧ L i ≤ 65536) (hC : ∀ i, Pow2 (C i) ∧ C i ≤ 65536)
    (hinit : ∀ i, Initialised (L i) (C i) (w.q i)) (hlog : w.log = [])
    (hrun : Steps (Nvmec mayFail) w (useQueues us) v p) (i : QId) :
    copies i v.log <+: (v.q i).ctl.done ∧
      ∀ c post pre, v.log = post ++ .copied i c :: pre → ∃ head slot e tail t,
        trail i pre = .consumed i head c :: .commit i slot e tail :: t ∧ c.cid = e.cid := by
  have : Fact (Pow2 (L i)) := ⟨(hL i).1⟩
  have : Fact (Pow2 (C i)) := ⟨(hC i).1⟩
  have hset := (hinit i).settled (hL i).1 (hC i).1 (hL i).2 (hC i).2 hlog
  have hctl := (obeys_useQueues us w hset v p hrun).1
  refine ⟨hctl.copies_prefix, fun c post pre hsplit => ?_⟩
  have hright := hctl.allRight
  rw [hsplit, trail_append, trail_cons_same rfl] at hright
  exact hright.split

theorem completions_matched_sample : (copies .io sampleRun.1.log).length = 2 ∧
    copies .io sampleRun.1.log <+: (sampleRun.1.q .io).ctl.done ∧
      ∀ c post pre, sampleRun.1.log = post ++ .copied .io c :: pre → ∃ head slot e tail t,
        trail .io pre = .consumed .io head c :: .commit .io slot e tail :: t ∧ c.cid = e.cid :=
  ⟨by decide, completions_matched noFail sampleSqLen sampleCqLen [sampleUse 5, sampleUse 6]
    sampleSqLen_pow sampleCqLen_pow (fun i => freshPair_initialised i _ _) rfl
    (follow_steps ..) .io⟩

/-! ### Submission slots -/

/-- Commands on queue `i` the controller has not completed: in flight, or committed and not yet
    fetched. -/
def uncompleted (w : World) (i : QId) (L : Nat) : List NvmeSqe :=
  (w.q i).ctl.flight.map (·.sqe) ++
    (List.range' (w.q i).ctl.taken (commits i w.log - (w.q i).ctl.taken)).map
      fun n => (w.q i).sqes (n % L)

/-- No slot of a command the controller has yet to fetch is handed out or cleared. -/
def SlotsKept (w : World) (i : QId) (L : Nat) : Prop :=
  ∀ opc metadata data data2 n, (w.q i).ctl.taken ≤ n → n < commits i w.log →
    (nvmeGetNextSqe (w.q i) opc metadata data data2).1 ≠ some (n % L) ∧
    (nvmeGetNextSqe (w.q i) opc metadata data data2).2.sqes (n % L) = (w.q i).sqes (n % L)

/-- The ring state of queue `i` that the slot property speaks about. -/
structure RingSafe (w : World) (i : QId) (L : Nat) : Prop where
  lag : ((w.q i).sq.tail + L - (w.q i).sq.head) % L = 0 ∨
    ((w.q i).sq.tail + L - (w.q i).sq.head) % L = 1
  slots : SlotsKept w i L
  cids : ((uncompleted w i L).map NvmeSqe.cid).Nodup

/-- With every command fetched and completed there is nothing to protect. -/
theorem Idle.ringSafe (h : Idle L C D (w.q i)) (hc : commits i w.log = D.length) :
    RingSafe w i L where
  lag := .inl (by rw [h.tail, h.head, Nat.add_sub_cancel_left, Nat.mod_self])
  slots := fun _ _ _ _ n hn hlt => by rw [h.taken] at hn; omega
  cids := by simp [uncompleted, h.flight, h.taken, hc]

theorem Outstanding.ringSafe [hL : Fact (Pow2 L)] {s : Stage} (h : Outstanding i L C D e s (w.q i))
    (hc : commits i w.log = D.length + 1) : RingSafe w i L where
  lag := by
    right
    have h2 := hL.out.two_le
    rw [h.tail, h.head]
    rcases mod_succ_cases D.length L hL.out.pos with ⟨hlt, hs, _⟩ | ⟨heq, hs, _⟩
    · rw [hs, show D.length % L + 1 + L - D.length % L = 1 + L by omega, Nat.add_mod_right,
        Nat.mod_eq_of_lt h2]
    · rw [hs, show 0 + L - D.length % L = 1 by omega, Nat.mod_eq_of_lt h2]
  slots := fun opc metadata data data2 n _ _ => by rw [h.getNextSqe]; exact ⟨by simp, rfl⟩
  cids := by
    -- one command at most: its entry is in the ring, in flight, or its completion is posted
    have hstage := h.stage
    cases s with
    | queued => simp [uncompleted, hstage.1, hstage.2.1, hc]
    | flying sf => simp [uncompleted, hstage.1, hstage.2.1, hc]
    | posted sf => simp [uncompleted, hstage.1, hstage.2.1, hc]

theorem Control.ringSafe [Fact (Pow2 L)] (h : Control i L C w) : RingSafe w i L := by
  have hsent : ∀ {D e stamp}, Sent i L C D e stamp w →
      (stamp ++ [committedOf i L D e]).countP Event.isCommit = 1 → RingSafe w i L := by
    intro D e stamp h hone
    obtain ⟨⟨s, hout⟩, ⟨t, ht, hlog⟩, _⟩ := h
    refine hout.ringSafe ?_
    rw [commits, hlog, ← List.singleton_append, ← List.append_assoc, List.countP_append, ht.commits]
    omega
  cases h with
  | settled h =>
    cases h with
    | rest D h => exact h.idle.ringSafe h.rounds.commits
    | stuck D e h => exact hsent h rfl
  | busy D e h => exact hsent h rfl
  | half D e sf h =>
    obtain ⟨t, ht, hlog⟩ := h.rounds
    refine h.idle.ringSafe ?_
    rw [commits, hlog]
    simp [List.countP_cons, Event.isCommit, consumedOf, committedOf, ht.commits]

/-- CORRECT: in every state any run reaches, at most one committed command is not reported fetched,
    no slot whose command is not fetched is handed out or cleared, and no two uncompleted commands
    share a command id. -/
theorem slots_not_reused (mayFail : Nat → Bool) (L C : QId → Nat) (us : List Use) {w v : World}
    {p : Drv Unit} (hL : ∀ i, Pow2 (L i) ∧ L i ≤ 65536) (hC : ∀ i, Pow2 (C i) ∧ C i ≤ 65536)
    (hinit : ∀ i, Initialised (L i) (C i) (w.q i)) (hlog : w.log = [])
    (hrun : Steps (Nvmec mayFail) w (useQueues us) v p) (i : QId) : RingSafe v i (L i) := by
  have : Fact (Pow2 (L i)) := ⟨(hL i).1⟩
  have : Fact (Pow2 (C i)) := ⟨(hC i).1⟩
  have hset := (hinit i).settled (hL i).1 (hC i).1 (hL i).2 (hC i).2 hlog
  exact (obeys_useQueues us w hset v p hrun).1.ringSafe

theorem slots_not_reused_sample : commits .io sampleRun.1.log = 2 ∧ RingSafe sampleRun.1 .io 2 :=
  ⟨by decide, slots_not_reused noFail sampleSqLen sampleCqLen [sampleUse 5, sampleUse 6]
    sampleSqLen_pow sampleCqLen_pow (fun i => freshPair_initialised i _ _) rfl
    (follow_steps ..) .io⟩

end Nvme
