import NvmeDisk.Queue.Rounds

/-! Driver code that obeys the one-command discipline of a queue: begun with the queue settled, it
    keeps it under control and ends with it settled, whatever the controller does. The pieces of
    driver code obey one by one; so does everything put together from them. -/

namespace Nvme
open Ring Resume

variable {mayFail : Nat → Bool} {w v : World} {i j : QId} {L C : Nat} {α β : Type}

/-- The driver changed nothing of queue `i`, and logged nothing that concerns it. -/
structure Leaves (i : QId) (w v : World) : Prop where
  q : v.q i = w.q i
  log : ∃ new, v.log = new ++ w.log ∧
    ∀ ev ∈ new, ev.queue? ≠ some i ∧ ev.handsBack = false ∧ ∀ m, ev ≠ .access i m

theorem Leaves.trail (h : Leaves i w v) : trail i v.log = trail i w.log := by
  obtain ⟨new, hlog, hnew⟩ := h.log
  have : Nvme.trail i new = [] :=
    List.filter_eq_nil_iff.mpr fun ev hev => by simpa using (hnew ev hev).1
  rw [hlog, trail_append, this, List.nil_append]

theorem Leaves.punctual (h : Leaves i w v) {n : Nat} (hp : Punctual i n w.log) :
    Punctual i n v.log := by
  obtain ⟨new, hlog, hnew⟩ := h.log
  rw [hlog]
  clear hlog
  induction new with
  | nil => exact hp
  | cons ev new ih =>
    obtain ⟨_, hret, hacc⟩ := hnew ev (List.mem_cons_self ..)
    exact (ih fun ev hev => hnew ev (List.mem_cons_of_mem _ hev)).event hret
      fun m hm => absurd hm (hacc m)

theorem Settled.leaves (h : Settled i L C w) (hl : Leaves i w v) : Settled i L C v := by
  cases h with
  | rest D h =>
    exact .rest D ⟨by rw [hl.q]; exact h.idle, by rw [hl.trail]; exact h.rounds,
      hl.punctual h.punctual⟩
  | stuck D e h =>
    exact .stuck D e ⟨by rw [hl.q]; exact h.out, by rw [hl.trail]; exact h.rounds,
      hl.punctual h.punctual⟩

/-- Nothing logged, queue `i` untouched. -/
theorem Leaves.quiet (hq : v.q i = w.q i) (hlog : v.log = w.log) : Leaves i w v :=
  ⟨hq, [], by simp [hlog], by simp⟩

/-- One event logged that does not concern queue `i`. -/
theorem Leaves.noted {ev : Event} (hq : v.q i = w.q i) (hlog : v.log = ev :: w.log)
    (hev : ev.queue? ≠ some i ∧ ev.handsBack = false ∧ ∀ m, ev ≠ .access i m) : Leaves i w v :=
  ⟨hq, [ev], by simp [hlog], by simpa using hev⟩

/-! ### Code that keeps a queue in order -/

/-- Begun settled, the code keeps queue `i` under control and leaves it settled. -/
def Obeys (mayFail : Nat → Bool) (i : QId) (L C : Nat) (p : Drv α) : Prop :=
  ∀ w, Settled i L C w →
    Wp (Nvmec mayFail) (Control i L C) p (fun _ => Settled i L C) (fun _ => Settled i L C) w

section
variable {p : Drv α} {g : α → Drv β}

theorem Obeys.ret [Fact (Pow2 C)] (a : α) : Obeys mayFail i L C (.ret a) :=
  fun _ hw => wp_ret fun _ he => ⟨.settled (hw.env he), hw.env he⟩

theorem Obeys.halt [Fact (Pow2 C)] (x : Halt) : Obeys mayFail i L C (.halt x : Drv α) :=
  fun _ hw => wp_halt fun _ he => ⟨.settled (hw.env he), hw.env he⟩

theorem Obeys.bind (hp : Obeys mayFail i L C p) (hg : ∀ a, Obeys mayFail i L C (g a)) :
    Obeys mayFail i L C (p >>= g) :=
  fun w hw => wp_bind (wp_mono (hp w hw) (fun _ h => h) (fun a v _ hv => hg a v hv) fun _ _ _ h => h)

/-- An action that leaves queue `i` alone. -/
theorem Obeys.atom [Fact (Pow2 C)] {f : World → World} {k : World → Drv α} (hf : ∀ w, Leaves i w (f w))
    (hk : ∀ w, Obeys mayFail i L C (k w)) : Obeys mayFail i L C (.atom f k) :=
  fun _ hw => wp_atom fun v he =>
    ⟨.settled (hw.env he), hk v (f v) ((hw.env he).leaves (hf v))⟩

theorem Obeys.get [Fact (Pow2 C)] (g : World → α) : Obeys mayFail i L C (Prog.get g : Drv α) :=
  .atom (fun _ => .quiet rfl rfl) fun _ => .ret _

theorem Obeys.modify [Fact (Pow2 C)] {f : World → World} (hf : ∀ w, Leaves i w (f w)) :
    Obeys mayFail i L C (Prog.modify f) :=
  .atom hf fun _ => .ret _

theorem Obeys.note [Fact (Pow2 C)] {ev : Event}
    (hev : ev.queue? ≠ some i ∧ ev.handsBack = false ∧ ∀ m, ev ≠ .access i m) :
    Obeys mayFail i L C (note ev) :=
  .modify fun _ => .noted rfl rfl hev

theorem Obeys.warn [Fact (Pow2 C)] (x : Warn) : Obeys mayFail i L C (warn x) :=
  .note ⟨by simp [Event.queue?], rfl, by simp⟩

/-- An action that keeps the queue settled. -/
theorem Obeys.modify_settled [Fact (Pow2 C)] {f : World → World}
    (hf : ∀ w, Settled i L C w → Settled i L C (f w)) : Obeys mayFail i L C (Prog.modify f) :=
  fun _ hw => wp_atom fun _ he => ⟨.settled (hw.env he), wp_ret fun _ hu =>
    ⟨.settled ((hf _ (hw.env he)).env hu), (hf _ (hw.env he)).env hu⟩⟩

/-- The call returns. -/
theorem Obeys.returned [Fact (Pow2 C)] : Obeys mayFail i L C (Nvme.note .returned) :=
  .modify_settled fun _ hw => hw.handBack rfl rfl (by simp [Event.queue?]) (by simp)

/-- Code all of whose actions leave queue `i` alone. -/
theorem Obeys.of_does [Fact (Pow2 C)] (hp : p.Does (Leaves i)) : Obeys mayFail i L C p := by
  induction hp with
  | ret => exact .ret _
  | atom hf _ ih => exact .atom hf ih

theorem OnQueue.leaves {c : Bool} (h : OnQueue j c w v) (hj : i ≠ j) : Leaves i w v := by
  rcases h.log with hlog | ⟨ev, hev, _, hlog⟩
  · exact .quiet (h.other i hj) hlog
  · refine .noted (h.other i hj) hlog ⟨?_, ?_, ?_⟩
    · rw [hev]
      simpa using Ne.symm hj
    · cases ev <;> first | rfl | cases hev
    · rintro m rfl
      cases hev

/-- Operations on the other queue. -/
theorem Obeys.on_other [Fact (Pow2 C)] {c : Bool} (hp : p.Does (OnQueue j c)) (hj : i ≠ j) :
    Obeys mayFail i L C p :=
  .of_does (hp.mono fun _ _ h => h.leaves hj)

/-- A command on either queue obeys, if the caller does in what it does with the completion and
    about a missing entry. -/
theorem obeys_command [Fact (Pow2 L)] [Fact (Pow2 C)]
    {opc metadata data data2 nsid dword10 dword11 dword12 : Nat}
    {f : Option Nat → Drv α} {k : NvmeCqe → Drv α}
    (hf : ∀ slot, f (some slot) = do
      fillIn j (some slot) nsid dword10 dword11 dword12
      commitSqe j
      let cqe ← nvmeWait j
      k cqe)
    (hnone : Obeys mayFail i L C (f none)) (hk : ∀ c, Obeys mayFail i L C (k c)) :
    Obeys mayFail i L C (getNextSqe j opc metadata data data2 >>= f) := by
  rcases eq_or_ne i j with rfl | hj
  · intro w hw
    cases hw with
    | rest D hw =>
      exact wp_command hw.idle hf rfl (fun v hv => hv.control hw)
        fun c v hv => hk c v (hv.settled hw)
    | stuck D e hw =>
      -- the full test finds the outstanding command for ever
      refine wp_atom fun v he => ?_
      have hv := hw.env he
      obtain ⟨s, hout⟩ := hv.out
      refine ⟨.settled (.stuck D e hv), ?_⟩
      simp only [hout.getNextSqe]
      have hself : v.setQ i (v.q i) = v := by simp [World.setQ]
      rw [hself]
      exact hnone v (.stuck D e hv)
  · refine .bind (.on_other (does_getNextSqe ..) hj) fun slot => ?_
    cases slot with
    | none => exact hnone
    | some s =>
      rw [hf]
      exact .bind (.on_other (does_fillIn ..) hj) fun _ => .bind (.on_other (does_commitSqe j) hj)
        fun _ => .bind (.on_other (does_wait j) hj) hk

end

/-- `nvme_io_xfer` on an idle queue is one command; with a command outstanding it ends at the missing
    entry. -/
theorem obeys_ioXfer [Fact (Pow2 L)] [Fact (Pow2 C)] (ns : NvmeNamespace)
    (lba prp1 prp2 count : Nat) (write : Bool) :
    Obeys mayFail i L C (nvmeIoXfer ns lba prp1 prp2 count write) := by
  unfold nvmeIoXfer
  split
  · exact .bind (.warn _) fun _ => .ret _
  · refine obeys_command (fun _ => rfl) (.halt _) fun c => ?_
    split <;> exact .ret _

/-! ### Using the queues the way the driver's callers do -/

/-- One use: which queue, and the fields of the command. -/
structure Use where
  i : QId
  opc : Nat
  metadata : Nat
  data : Nat
  data2 : Nat
  nsid : Nat
  dword10 : Nat
  dword11 : Nat
  dword12 : Nat
  deriving DecidableEq, Repr

/-- Get an entry and, only if one was returned, fill it in, commit it and wait once. -/
def useQueue (u : Use) : Drv Unit := do
  match ← getNextSqe u.i u.opc u.metadata u.data u.data2 with
  | none => return ()
  | some slot =>
    fillIn u.i (some slot) u.nsid u.dword10 u.dword11 u.dword12
    commitSqe u.i
    let _ ← nvmeWait u.i
    return ()

/-- A sequence of uses. -/
def useQueues : List Use → Drv Unit
  | [] => return ()
  | u :: us => do
    useQueue u
    useQueues us

theorem obeys_useQueue [Fact (Pow2 L)] [Fact (Pow2 C)] (u : Use) : Obeys mayFail i L C (useQueue u) :=
  obeys_command (fun _ => rfl) (.ret _) fun _ => .ret _

theorem obeys_useQueues [Fact (Pow2 L)] [Fact (Pow2 C)] (us : List Use) :
    Obeys mayFail i L C (useQueues us) := by
  induction us with
  | nil => exact .ret _
  | cons u us ih => exact .bind (obeys_useQueue u) fun _ => ih

end Nvme
