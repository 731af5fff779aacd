import NvmeDisk.Queue.Command
import NvmeDisk.Queue.Ops

/-! The history of a queue pair that is used one command at a time. Its doings in the log come in
    rounds of three, commit, completion doorbell and copy, and after a timed-out wait they come to
    an end: the pair is `Settled`, at rest or stuck for good. `Control` is what holds between any
    two steps. Beside the rounds it keeps `Punctual`: which commands the controller still works for
    once a call has returned. -/

namespace Nvme
open Ring Resume

/-! ### What the log says about one queue -/

/-- The driver's doings on queue `i`, newest first. -/
def trail (i : QId) (log : List Event) : List Event := log.filter fun ev => ev.queue? = some i

/-- How many commands were committed on queue `i`. -/
def commits (i : QId) (log : List Event) : Nat := (trail i log).countP Event.isCommit

/-- The last doing on queue `i` is a wait that gave up. -/
def GivenUp (i : QId) (log : List Event) : Prop := ∃ t, trail i log = .timeout i :: t

section
variable {i : QId} {n : Option Nat} {a b : List Event} {ev : Event}

theorem trail_cons_same (h : ev.queue? = some i) (log : List Event) :
    trail i (ev :: log) = ev :: trail i log := by
  simp [trail, h]

theorem trail_cons_ne (h : ev.queue? ≠ some i) (log : List Event) :
    trail i (ev :: log) = trail i log := by
  simp [trail, h]

theorem trail_append (i : QId) (a b : List Event) : trail i (a ++ b) = trail i a ++ trail i b :=
  List.filter_append ..

theorem Logged.trail (h : Logged i n a b) : trail i b = trail i a := by
  obtain ⟨new, hnew, rfl⟩ := h
  have : Nvme.trail i new = [] := by
    refine List.filter_eq_nil_iff.mpr fun ev hev => ?_
    obtain ⟨j, m, rfl, _⟩ := hnew ev hev
    simp [Event.queue?]
  rw [trail_append, this, List.nil_append]

/-- Looking back in the log, no more commands had been committed. -/
theorem commits_split_le {log : List Event} (hs : log = a ++ ev :: b) :
    commits i b ≤ commits i log := by
  rw [hs, commits, commits, ← List.singleton_append, ← List.append_assoc, trail_append,
    List.countP_append]
  omega

end

/-! ### Rounds -/

def committedOf (i : QId) (L : Nat) (D : List NvmeCqe) (e : NvmeSqe) : Event :=
  .commit i (D.length % L) e ((D.length + 1) % L)

/-- The trail of a queue whose commands were all completed, with completions `D`. -/
inductive Rounds (i : QId) (L C : Nat) : List NvmeCqe → List Event → Prop where
  | nil : Rounds i L C [] []
  | round {D t} (e : NvmeSqe) (sf : Nat) : Rounds i L C D t →
      Rounds i L C (D ++ [cqeOf i L C D e sf])
        (.copied i (cqeOf i L C D e sf) :: consumedOf i L C D e sf :: committedOf i L D e :: t)

theorem Rounds.commits {i : QId} {L C : Nat} {D : List NvmeCqe} {t : List Event}
    (h : Rounds i L C D t) : t.countP Event.isCommit = D.length := by
  induction h with
  | nil => rfl
  | round e sf _ ih =>
    simp [List.countP_cons, Event.isCommit, consumedOf, committedOf, ih]

theorem Rounds.no_timeout {i : QId} {L C : Nat} {D : List NvmeCqe} {t : List Event}
    (h : Rounds i L C D t) : .timeout i ∉ t := by
  induction h with
  | nil => simp
  | round e sf _ ih => simp [consumedOf, committedOf, ih]

/-- A timeout of the queue in the log is one of its trail. -/
theorem timeout_mem_trail {i : QId} {log : List Event} :
    .timeout i ∈ trail i log ↔ .timeout i ∈ log := by
  simp [trail, Event.queue?]

/-! ### Which commands outlive a call -/

/-- A call returns its buffers to their owner, or frees one. -/
def Event.handsBack : Event → Bool
  | .returned => true
  | .freed _ => true
  | _ => false

/-- Command `m` of queue `i` was the last one of it, and its wait gave up. -/
def Abandoned (i : QId) (m : Nat) (log : List Event) : Prop := m + 1 = commits i log ∧ GivenUp i log

/-- After buffers were handed back, the controller worked for a command submitted before only if it
    was abandoned by then (`past`), and command `n` it may still work for (`now`). -/
structure Punctual (i : QId) (n : Nat) (log : List Event) : Prop where
  past : ∀ post back pre m, log = post ++ back :: pre → back.handsBack = true →
    .access i m ∈ post → m < commits i pre → Abandoned i m pre
  now : ∀ post back pre, log = post ++ back :: pre → back.handsBack = true →
    n < commits i pre → Abandoned i n pre

section
variable {i : QId} {n m : Nat} {log log' : List Event} {ev : Event}

theorem Punctual.nil (i : QId) (n : Nat) : Punctual i n [] where
  past := fun post back pre m h => by cases post <;> cases h
  now := fun post back pre h => by cases post <;> cases h

/-- Any event that hands nothing back, accesses on queue `i` being for command `n` only. -/
theorem Punctual.event (h : Punctual i n log) (hback : ev.handsBack = false)
    (hacc : ∀ m, ev = .access i m → m = n) : Punctual i n (ev :: log) where
  past post back pre m hs hb hm hlt := by
    cases post with
    | nil => cases hs; rw [hback] at hb; cases hb
    | cons ev' post =>
      obtain ⟨rfl, htl⟩ := List.cons.inj hs
      rcases List.mem_cons.mp hm with hev | hm
      · rw [hacc m hev.symm] at hlt ⊢
        exact h.now post back pre htl hb hlt
      · exact h.past post back pre m htl hb hm hlt
  now post back pre hs hb hlt := by
    cases post with
    | nil => cases hs; rw [hback] at hb; cases hb
    | cons ev' post => exact h.now post back pre (List.cons.inj hs).2 hb hlt

theorem Punctual.logged (h : Punctual i n log) (hl : Logged i (some n) log log') :
    Punctual i n log' := by
  obtain ⟨new, hnew, rfl⟩ := hl
  induction new with
  | nil => exact h
  | cons ev new ih =>
    obtain ⟨j, k, rfl, hj⟩ := hnew ev (List.mem_cons_self ..)
    refine (ih fun ev hev => hnew ev (List.mem_cons_of_mem _ hev)).event rfl ?_
    rintro m hm
    cases hm
    exact (Option.some.inj (hj rfl)).symm

/-- Buffers are handed back: the command the controller may still work for must be abandoned. -/
theorem Punctual.handBack (h : Punctual i n log) (hacc : ∀ m, ev ≠ .access i m)
    (hn : n < commits i log → Abandoned i n log) : Punctual i n (ev :: log) where
  past post back pre m hs hb hm hlt := by
    cases post with
    | nil => cases hm
    | cons ev' post =>
      obtain ⟨rfl, htl⟩ := List.cons.inj hs
      rcases List.mem_cons.mp hm with hev | hm
      · exact absurd hev.symm (hacc m)
      · exact h.past post back pre m htl hb hm hlt
  now post back pre hs hb hlt := by
    cases post with
    | nil => cases hs; exact hn hlt
    | cons ev' post => exact h.now post back pre (List.cons.inj hs).2 hb hlt

/-- With every command completed there is none to work for. -/
theorem Punctual.next (h : Punctual i n log) (hm : commits i log ≤ m) : Punctual i m log where
  past := h.past
  now post back pre hs _ hlt := by
    have := commits_split_le (i := i) hs
    omega

end

/-! ### Phases of a queue -/

section
variable (i : QId) (L C : Nat)

/-- No command outstanding. -/
structure AtRest (D : List NvmeCqe) (w : World) : Prop where
  idle : Idle L C D (w.q i)
  rounds : Rounds i L C D (trail i w.log)
  punctual : Punctual i D.length w.log

/-- Command `e` is outstanding; `stamp` is what the driver has done about it. -/
structure Sent (D : List NvmeCqe) (e : NvmeSqe) (stamp : List Event) (w : World) : Prop where
  out : ∃ s, Outstanding i L C D e s (w.q i)
  rounds : ∃ t, Rounds i L C D t ∧ trail i w.log = stamp ++ committedOf i L D e :: t
  punctual : Punctual i D.length w.log

/-- The completion of `e` is consumed but not copied yet. -/
structure Halfway (D : List NvmeCqe) (e : NvmeSqe) (sf : Nat) (w : World) : Prop where
  idle : Idle L C (D ++ [cqeOf i L C D e sf]) (w.q i)
  slot : (w.q i).cqes (D.length % C) = cqeOf i L C D e sf
  rounds : ∃ t, Rounds i L C D t ∧
    trail i w.log = consumedOf i L C D e sf :: committedOf i L D e :: t
  punctual : Punctual i (D.length + 1) w.log

/-- Between two uses of the queue. -/
inductive Settled (w : World) : Prop where
  | rest (D) : AtRest i L C D w → Settled w
  | stuck (D e) : Sent i L C D e [.timeout i] w → Settled w

/-- Between any two steps. -/
inductive Control (w : World) : Prop where
  | settled : Settled i L C w → Control w
  | busy (D e) : Sent i L C D e [] w → Control w
  | half (D e sf) : Halfway i L C D e sf w → Control w

end

variable {mayFail : Nat → Bool} {w w₀ v : World} {i : QId} {L C : Nat} {D : List NvmeCqe}
  {e : NvmeSqe} {sf : Nat} {stamp : List Event}

/-! ### The controller keeps every phase -/

theorem AtRest.env (h : AtRest i L C D w) (he : Env (Nvmec mayFail) w v) : AtRest i L C D v := by
  have ha := h.idle.noWork.env he
  exact {
    idle := by rw [ha.q]; exact h.idle
    rounds := by rw [ha.log.trail]; exact h.rounds
    punctual := h.punctual.logged (ha.log.weaken _) }

theorem Sent.move [Fact (Pow2 C)] (h : Sent i L C D e stamp w) {m : Move}
    (hm : nvmeMove mayFail m w = some v) :
    Sent i L C D e stamp v := by
  obtain ⟨⟨s, hout⟩, hrounds, hpun⟩ := h
  rcases hout.move hm with hel | ⟨s', hout', hp⟩
  · exact {
      out := ⟨s, by rw [hel.q]; exact hout⟩
      rounds := by rw [hel.log.trail]; exact hrounds
      punctual := hpun.logged (hel.log.weaken _) }
  · exact {
      out := ⟨s', hout'⟩
      rounds := by rw [hp.log.trail]; exact hrounds
      punctual := hpun.logged hp.log }

theorem Sent.env [Fact (Pow2 C)] (h : Sent i L C D e stamp w) (he : Env (Nvmec mayFail) w v) :
    Sent i L C D e stamp v :=
  Stable.env (fun _ _ hp ⟨_, hm⟩ => Sent.move hp hm) h he

theorem Settled.env [Fact (Pow2 C)] (h : Settled i L C w) (he : Env (Nvmec mayFail) w v) :
    Settled i L C v := by
  cases h with
  | rest D h => exact .rest D (h.env he)
  | stuck D e h => exact .stuck D e (h.env he)

/-- Buffers may be handed back on a settled queue. -/
theorem Settled.handBack (h : Settled i L C w) (hq : v.q i = w.q i) {ev : Event}
    (hlog : v.log = ev :: w.log) (hev : ev.queue? ≠ some i) (hacc : ∀ m, ev ≠ .access i m) :
    Settled i L C v := by
  have htrail : trail i v.log = trail i w.log := by rw [hlog, trail_cons_ne hev]
  cases h with
  | rest D h =>
    refine .rest D ⟨by rw [hq]; exact h.idle, by rw [htrail]; exact h.rounds, ?_⟩
    rw [hlog]
    refine h.punctual.handBack hacc fun hlt => ?_
    rw [commits, h.rounds.commits] at hlt
    omega
  | stuck D e h =>
    obtain ⟨t, ht, htr⟩ := h.rounds
    refine .stuck D e ⟨by rw [hq]; exact h.out, by rw [htrail]; exact h.rounds, ?_⟩
    rw [hlog]
    refine h.punctual.handBack hacc fun _ => ⟨?_, _, htr⟩
    rw [commits, htr]
    simp [List.countP_cons, Event.isCommit, committedOf, ht.commits]

/-! ### One command, seen from its queue -/

theorem AtRest.prepared (h : AtRest i L C D w) (hp : Prepared i L C D w v) : AtRest i L C D v where
  idle := hp.idle
  rounds := by rw [hp.log.trail]; exact h.rounds
  punctual := h.punctual.logged (hp.log.weaken _)

/-- Right after the commit. -/
theorem AtRest.submitted (h : AtRest i L C D w) (hs : Submitted i L C D e w w₀) :
    trail i w₀.log = committedOf i L D e :: trail i w.log ∧ Punctual i D.length w₀.log := by
  obtain ⟨l, hl, hlog⟩ := hs.log
  rw [hlog, ← hl.trail]
  exact ⟨trail_cons_same rfl _, (h.punctual.logged (hl.weaken _)).event rfl fun m hev => by cases hev⟩

theorem trail_consumed (l : List Event) :
    trail i (consumedOf i L C D e sf :: l) = consumedOf i L C D e sf :: trail i l :=
  trail_cons_same rfl _

/-- After the completion doorbell, with `t` the trail before the commit. -/
theorem Punctual.consumed {l : List Event} {t : List Event} (h : Punctual i D.length l)
    (ht : Rounds i L C D t) (htr : trail i l = committedOf i L D e :: t) :
    Punctual i (D.length + 1) (consumedOf i L C D e sf :: l) := by
  have hev : Punctual i D.length (consumedOf i L C D e sf :: l) :=
    h.event rfl fun m hev => by cases hev
  refine hev.next ?_
  rw [commits, trail_consumed, htr]
  simp [List.countP_cons, Event.isCommit, consumedOf, committedOf, ht.commits]

theorem Taking.halfway (h : AtRest i L C D w) (hs : Submitted i L C D e w w₀)
    (ht : Taking mayFail w₀ i L C D e sf v) : Halfway i L C D e sf v := by
  obtain ⟨l, hl, hf⟩ := ht
  obtain ⟨htr, hpun⟩ := h.submitted hs
  have hltr : trail i l = committedOf i L D e :: trail i w.log := hl.trail.trans htr
  refine ⟨hf.idle, hf.slot, ⟨trail i w.log, h.rounds, ?_⟩, ?_⟩
  · rw [hf.log.trail, trail_consumed, hltr]
  · exact ((hpun.logged hl).consumed h.rounds hltr).logged (hf.log.weaken _)

theorem Took.atRest (h : AtRest i L C D w) (hs : Submitted i L C D e w w₀)
    (ht : Took mayFail w₀ i L C D e sf v) : AtRest i L C (D ++ [cqeOf i L C D e sf]) v := by
  obtain ⟨l, l', hl, hl', hf⟩ := ht
  obtain ⟨htr, hpun⟩ := h.submitted hs
  have hltr : trail i l = committedOf i L D e :: trail i w.log := hl.trail.trans htr
  refine ⟨hf.idle, ?_, ?_⟩
  · rw [hf.log.trail, trail_cons_same rfl, hl'.trail, trail_consumed, hltr]
    exact .round e sf h.rounds
  · have hcons : Punctual i (D.length + 1) (consumedOf i L C D e sf :: l) :=
      (hpun.logged hl).consumed h.rounds hltr
    have hev : Punctual i (D.length + 1) (.copied i (cqeOf i L C D e sf) :: l') :=
      (hcons.logged (hl'.weaken _)).event rfl fun m hev => by cases hev
    rw [List.length_append, List.length_singleton]
    exact hev.logged (hf.log.weaken _)

theorem GaveUp.stuck (h : AtRest i L C D w) (hs : Submitted i L C D e w w₀)
    (hg : GaveUp mayFail w₀ i L C D e v) : Sent i L C D e [.timeout i] v := by
  obtain ⟨s, l, hl, hu⟩ := hg
  obtain ⟨htr, hpun⟩ := h.submitted hs
  refine ⟨⟨s, hu.out⟩, ⟨trail i w.log, h.rounds, ?_⟩, ?_⟩
  · rw [hu.log.trail, trail_cons_same rfl, hl.trail, htr]
    rfl
  · have hev : Punctual i D.length (.timeout i :: l) :=
      (hpun.logged hl).event rfl fun m hev => by cases hev
    exact hev.logged hu.log

theorem Underway.sent {s : Stage} (h : AtRest i L C D w) (hs : Submitted i L C D e w w₀)
    (hu : Underway mayFail w₀ i L C D e w₀.log s v) : Sent i L C D e [] v := by
  obtain ⟨htr, hpun⟩ := h.submitted hs
  exact ⟨⟨s, hu.out⟩, ⟨trail i w.log, h.rounds, hu.log.trail.trans htr⟩, hpun.logged hu.log⟩

/-- Begun at rest, a command keeps the queue under control all along. -/
theorem Exchange.control (h : AtRest i L C D w) (hx : Exchange i L C D e mayFail w v) :
    Control i L C v := by
  cases hx with
  | prepared hp => exact .settled (.rest D (h.prepared hp))
  | waiting w₀ hs hw =>
    cases hw with
    | underway s hu => exact .busy D e (hu.sent h hs)
    | taking sf ht => exact .half D e sf (ht.halfway h hs)
    | took sf ht => exact .settled (.rest _ (ht.atRest h hs))
    | gaveUp hg => exact .settled (.stuck D e (hg.stuck h hs))

theorem CommandPost.settled (h : AtRest i L C D w) {c : NvmeCqe}
    (hc : CommandPost i L C D e mayFail w c v) : Settled i L C v := by
  obtain ⟨w₀, hs, ⟨sf, _, ht⟩ | ⟨_, hg⟩⟩ := hc
  · exact .rest _ (ht.atRest h hs)
  · exact .stuck D e (hg.stuck h hs)

end Nvme
