import NvmeDisk.Queue.Stage

/-! What one controller move does, seen from one queue pair. A move on the other pair leaves this
    pair alone (`Elsewhere`); a move on this pair takes the outstanding command one stage further
    (`Progress`). An idle pair therefore only ever sees moves elsewhere, and where the other pair
    has no work either (`Calm`), it sees none. -/

namespace Nvme
open Ring Resume BlockDev

/-! ### Log growth by controller accesses -/

/-- `log` is `base` and controller accesses on top: on queue `i` for command `n` only, on the other
    queue for any command. -/
def Logged (i : QId) (n : Option Nat) (base log : List Event) : Prop :=
  ∃ new, (∀ ev ∈ new, ∃ j m, ev = .access j m ∧ (j = i → n = some m)) ∧ log = new ++ base

section
variable {i j : QId} {n : Option Nat} {m : Nat} {a b c : List Event}

theorem Logged.refl (i : QId) (n : Option Nat) (a : List Event) : Logged i n a a :=
  ⟨[], by simp, rfl⟩

theorem Logged.trans (h : Logged i n a b) (h' : Logged i n b c) : Logged i n a c := by
  obtain ⟨new, hnew, rfl⟩ := h
  obtain ⟨new', hnew', rfl⟩ := h'
  refine ⟨new' ++ new, fun ev hev => ?_, (List.append_assoc ..).symm⟩
  rcases List.mem_append.mp hev with hev | hev
  · exact hnew' ev hev
  · exact hnew ev hev

theorem Logged.weaken (h : Logged i none a b) (n : Option Nat) : Logged i n a b := by
  obtain ⟨new, hnew, rfl⟩ := h
  refine ⟨new, fun ev hev => ?_, rfl⟩
  obtain ⟨j, m, rfl, hj⟩ := hnew ev hev
  exact ⟨j, m, rfl, fun h => by cases hj h⟩

theorem Logged.access (h : j = i → n = some m) : Logged i n a (.access j m :: a) :=
  ⟨[.access j m], by simpa using h, rfl⟩

end

/-- The pair other than `i` has no work. -/
def Calm (i : QId) (w : World) : Prop := ∀ j, j ≠ i → (w.q j).ctl.NoWork

/-- The controller moved on another queue than `i`. -/
structure Elsewhere (i : QId) (w v : World) : Prop where
  busy : ¬ Calm i w
  q : v.q i = w.q i
  sys : v.sys = w.sys
  reg : v.reg = w.reg
  dev : v.dev = w.dev
  log : Logged i none w.log v.log

variable {mayFail : Nat → Bool} {w v u : World} {i : QId} {L C : Nat} {D : List NvmeCqe}
  {e : NvmeSqe} {s : Stage} {m : Move}

/-- A controller move is elsewhere, or one of the five moves on queue `i`. -/
theorem nvmeMove_on (hm : nvmeMove mayFail m w = some v) (i : QId) : Elsewhere i w v ∨
    ((w.q i).ctl.taken % (w.q i).ctl.sqLen ≠ (w.q i).ctl.tail ∧ v = w.setQ i (w.q i).fetch) ∨
    (∃ k : Nat, ∃ g e n t, (w.q i).ctl.flight[k]? = some ⟨e, n, none⟩ ∧
      transferOf w.dev w.store i e = some t ∧
      v = { w with store := t.part g w.store }.note (.access i n)) ∨
    (∃ k : Nat, ∃ e n t, (w.q i).ctl.flight[k]? = some ⟨e, n, none⟩ ∧
      transferOf w.dev w.store i e = some t ∧
      v = ({ w with store := t.full w.store }.setQ i ((w.q i).settle k ⟨e, n, none⟩ 0)).note
        (.access i n)) ∨
    (∃ k : Nat, ∃ e n sf, (w.q i).ctl.flight[k]? = some ⟨e, n, none⟩ ∧
      (mayFail sf = true ∧ sf ≠ 0 ∧ sf < 32768) ∧
      v = w.setQ i ((w.q i).settle k ⟨e, n, none⟩ sf)) ∨
    (∃ k : Nat, ∃ e n sf, (w.q i).ctl.flight[k]? = some ⟨e, n, some sf⟩ ∧
      v = w.setQ i ((w.q i).post i k ⟨e, n, some sf⟩ sf)) := by
  have hbusy : ∀ {j}, j ≠ i → (w.q j).ctl.flight ≠ [] → ¬ Calm i w :=
    fun hj hf hc => hf (hc _ hj).flight
  have hsome : ∀ {j : QId} {k : Nat} {f}, (w.q j).ctl.flight[k]? = some f →
      (w.q j).ctl.flight ≠ [] := fun h h' => by rw [h'] at h; cases h
  have hacc : ∀ {j n}, j ≠ i → Logged i none w.log (.access j n :: w.log) :=
    fun hj => .access fun h => absurd h hj
  rcases nvmeMove_cases hm with ⟨j, hne, rfl⟩ | ⟨j, k, g, e, n, t, hf, ht, rfl⟩ |
    ⟨j, k, e, n, t, hf, ht, rfl⟩ | ⟨j, k, e, n, sf, hf, hsf, rfl⟩ | ⟨j, k, e, n, sf, hf, rfl⟩ <;>
    by_cases hj : j = i
  · subst hj; exact .inr (.inl ⟨hne, rfl⟩)
  · exact .inl ⟨fun hc => hne (hc j hj).fetched, World.setQ_q_ne _ _ (Ne.symm hj), rfl, rfl, rfl,
      .refl ..⟩
  · subst hj; exact .inr (.inr (.inl ⟨k, g, e, n, t, hf, ht, rfl⟩))
  · exact .inl ⟨hbusy hj (hsome hf), rfl, rfl, rfl, rfl, hacc hj⟩
  · subst hj; exact .inr (.inr (.inr (.inl ⟨k, e, n, t, hf, ht, rfl⟩)))
  · exact .inl ⟨hbusy hj (hsome hf), World.setQ_q_ne _ _ (Ne.symm hj), rfl, rfl, rfl, hacc hj⟩
  · subst hj; exact .inr (.inr (.inr (.inr (.inl ⟨k, e, n, sf, hf, hsf, rfl⟩))))
  · exact .inl ⟨hbusy hj (hsome hf), World.setQ_q_ne _ _ (Ne.symm hj), rfl, rfl, rfl, .refl ..⟩
  · subst hj; exact .inr (.inr (.inr (.inr (.inr ⟨k, e, n, sf, hf, rfl⟩))))
  · exact .inl ⟨hbusy hj (hsome hf), World.setQ_q_ne _ _ (Ne.symm hj), rfl, rfl, rfl, .refl ..⟩

/-! ### The driver's side -/

/-- The driver's side of a queue pair is the same. -/
structure SameDriver (i : QId) (w v : World) : Prop where
  sq : (v.q i).sq = (w.q i).sq
  cq : (v.q i).cq = (w.q i).cq
  sqes : (v.q i).sqes = (w.q i).sqes

theorem SameDriver.refl (i : QId) (w : World) : SameDriver i w w := ⟨rfl, rfl, rfl⟩

theorem SameDriver.trans (h : SameDriver i w v) (h' : SameDriver i v u) : SameDriver i w u :=
  ⟨h'.sq.trans h.sq, h'.cq.trans h.cq, h'.sqes.trans h.sqes⟩

theorem SameDriver.setQ (i : QId) (w : World) {j : QId} {q : QPair} (hs : q.sq = (w.q j).sq)
    (hc : q.cq = (w.q j).cq) (he : q.sqes = (w.q j).sqes) : SameDriver i w (w.setQ j q) := by
  rcases eq_or_ne i j with rfl | hij
  · exact ⟨by rw [World.setQ_q_same, hs], by rw [World.setQ_q_same, hc], by rw [World.setQ_q_same, he]⟩
  · have hq : (w.setQ j q).q i = w.q i := World.setQ_q_ne _ _ hij
    exact ⟨by rw [hq], by rw [hq], by rw [hq]⟩

/-- The controller writes its own side and completion entries only. -/
theorem sameDriver_move {m : Move} (hm : nvmeMove mayFail m w = some v) (i : QId) :
    SameDriver i w v := by
  rcases nvmeMove_cases hm with ⟨j, _, rfl⟩ | ⟨j, k, g, e, n, t, _, _, rfl⟩ |
    ⟨j, k, e, n, t, _, _, rfl⟩ | ⟨j, k, e, n, sf, _, _, rfl⟩ | ⟨j, k, e, n, sf, _, rfl⟩
  · exact .setQ i w rfl rfl rfl
  · exact ⟨rfl, rfl, rfl⟩
  · exact (SameDriver.setQ i w (q := (w.q j).settle k ⟨e, n, none⟩ 0) rfl rfl rfl).trans ⟨rfl, rfl, rfl⟩
  · exact .setQ i w rfl rfl rfl
  · exact .setQ i w rfl rfl rfl

theorem sameDriver_env (he : Env (Nvmec mayFail) w v) (i : QId) : SameDriver i w v := by
  induction he with
  | refl => exact .refl i w
  | tail _ hr ih =>
    obtain ⟨m, hm⟩ := hr
    exact ih.trans (sameDriver_move hm i)

/-! ### A queue without work -/

/-- From `w` to `v` only the other queue was worked on. -/
structure Apart (i : QId) (w v : World) : Prop where
  q : v.q i = w.q i
  sys : v.sys = w.sys
  reg : v.reg = w.reg
  dev : v.dev = w.dev
  log : Logged i none w.log v.log
  calm : Calm i w → v = w

theorem Apart.refl (i : QId) (w : World) : Apart i w w := ⟨rfl, rfl, rfl, rfl, .refl .., fun _ => rfl⟩

theorem Apart.elsewhere (h : Apart i w v) (h' : Elsewhere i v u) : Apart i w u where
  q := h'.q.trans h.q
  sys := h'.sys.trans h.sys
  reg := h'.reg.trans h.reg
  dev := h'.dev.trans h.dev
  log := h.log.trans h'.log
  calm hc := absurd (h.calm hc ▸ hc) h'.busy

/-- Where queue `i` has no work every move is elsewhere. -/
theorem CtlQueue.NoWork.move (h : (w.q i).ctl.NoWork) (hm : nvmeMove mayFail m w = some v) :
    Elsewhere i w v := by
  rcases nvmeMove_on hm i with h' | ⟨hne, _⟩ | ⟨k, g, e, n, t, hf, _⟩ | ⟨k, e, n, t, hf, _⟩ |
    ⟨k, e, n, sf, hf, _⟩ | ⟨k, e, n, sf, hf, _⟩
  · exact h'
  · exact absurd h.fetched hne
  all_goals rw [h.flight] at hf; cases hf

theorem CtlQueue.NoWork.env (h : (w.q i).ctl.NoWork) (he : Env (Nvmec mayFail) w v) :
    Apart i w v := by
  induction he with
  | refl => exact .refl ..
  | tail _ hr ih =>
    obtain ⟨m, hm⟩ := hr
    exact ih.elsewhere (CtlQueue.NoWork.move (ih.q ▸ h) hm)

/-! ### What an outstanding command has done to memory and disk -/

/-- Partial transfers of command `e`, any number of them. -/
inductive Parts (d : Device) (i : QId) (e : NvmeSqe) (s₀ : Store) : Store → Prop where
  | refl : Parts d i e s₀ s₀
  | step {s t} (g : Nat → UInt8) : Parts d i e s₀ s → transferOf d s i e = some t →
      Parts d i e s₀ (t.part g s)

/-- The command is executed: in full if its status field is 0, else with any partial effect. -/
def Ended (d : Device) (i : QId) (e : NvmeSqe) (s₀ : Store) (sf : Nat) (s : Store) : Prop :=
  if sf = 0 then ∃ s₁ t, Parts d i e s₀ s₁ ∧ transferOf d s₁ i e = some t ∧ s = t.full s₁
  else Parts d i e s₀ s

def Stage.Data (d : Device) (i : QId) (e : NvmeSqe) (s₀ : Store) : Stage → Store → Prop
  | .queued, s => s = s₀
  | .flying none, s => Parts d i e s₀ s
  | .flying (some sf), s => Ended d i e s₀ sf s
  | .posted sf, s => Ended d i e s₀ sf s

/-- The status the command was executed with, if it was. -/
def Stage.sf : Stage → Option Nat
  | .flying sf => sf
  | .posted sf => some sf
  | .queued => none

/-- A status field the controller may report. -/
def OkStatus (mayFail : Nat → Bool) (sf : Nat) : Prop :=
  sf = 0 ∨ (mayFail sf = true ∧ sf ≠ 0 ∧ sf < 32768)

theorem noFail_ok : ∀ sf, OkStatus noFail sf → sf = 0 := by
  rintro sf (h0 | ⟨hfail, _⟩)
  · exact h0
  · cases hfail

def Stage.Status (mayFail : Nat → Bool) (s : Stage) : Prop := ∀ sf, s.sf = some sf → OkStatus mayFail sf

theorem ended_zero {d : Device} {i : QId} {e : NvmeSqe} {s₀ s : Store} :
    Ended d i e s₀ 0 s ↔
      ∃ s₁ t, Parts d i e s₀ s₁ ∧ transferOf d s₁ i e = some t ∧ s = t.full s₁ := by
  rw [Ended, if_pos rfl]

theorem ended_error {d : Device} {i : QId} {e : NvmeSqe} {s₀ s : Store} {sf : Nat} (h : sf ≠ 0) :
    Ended d i e s₀ sf s ↔ Parts d i e s₀ s := by
  rw [Ended, if_neg h]

/-- A move on queue `i` took command `e`, number `n`, from stage `s` to `s'`. -/
structure Progress (mayFail : Nat → Bool) (i : QId) (n : Nat) (e : NvmeSqe) (w : World)
    (s s' : Stage) (v : World) : Prop where
  other : ∀ j, j ≠ i → v.q j = w.q j
  sys : v.sys = w.sys
  reg : v.reg = w.reg
  dev : v.dev = w.dev
  log : Logged i (some n) w.log v.log
  status : s.Status mayFail → s'.Status mayFail
  data : ∀ s₀, s.Data w.dev i e s₀ w.store → s'.Data w.dev i e s₀ v.store

/-- CONTROLLER STEP: with command `e` outstanding, a move is elsewhere or takes `e` further. -/
theorem Outstanding.move [Fact (Pow2 C)] (h : Outstanding i L C D e s (w.q i))
    (hm : nvmeMove mayFail m w = some v) : Elsewhere i w v ∨
    ∃ s', Outstanding i L C D e s' (v.q i) ∧ Progress mayFail i D.length e w s s' v := by
  -- only a fetched command is in flight, at position 0
  have hone : ∀ {k : Nat} {f : Flight}, (w.q i).ctl.flight[k]? = some f →
      k = 0 ∧ f.sqe = e ∧ f.serial = D.length ∧ s = .flying f.status := by
    intro k f hf
    have hout := h.stage
    cases s with
    | queued => rw [hout.2.1] at hf; cases hf
    | posted sf => rw [hout.2.1] at hf; cases hf
    | flying sf =>
      rw [hout.2.1] at hf
      cases k with
      | zero => cases hf; exact ⟨rfl, rfl, rfl, rfl⟩
      | succ k => cases hf
  have hother : ∀ q j, j ≠ i → (w.setQ i q).q j = w.q j := fun q j hj => World.setQ_q_ne _ _ hj
  rcases nvmeMove_on hm i with h' | ⟨hne, rfl⟩ | ⟨k, g, e', n, t, hf, ht, rfl⟩ |
    ⟨k, e', n, t, hf, ht, rfl⟩ | ⟨k, e', n, sf, hf, hsf, rfl⟩ | ⟨k, e', n, sf, hf, rfl⟩
  · exact .inl h'
  · have hs : s = .queued := by
      have hout := h.stage
      cases s with
      | queued => rfl
      | flying sf => exact absurd (by rw [hout.1, h.sqLen, h.sqDbl]) hne
      | posted sf => exact absurd (by rw [hout.1, h.sqLen, h.sqDbl]) hne
    subst hs
    refine .inr ⟨.flying none, by simpa using h.fetch, hother _, rfl, rfl, rfl, .refl .., ?_, ?_⟩
    · intro _ sf hsf
      cases hsf
    · rintro s₀ (hd : w.store = s₀)
      rw [← hd]
      exact .refl
  · obtain ⟨rfl, rfl, rfl, rfl⟩ := hone hf
    exact .inr ⟨.flying none, h, fun _ _ => rfl, rfl, rfl, rfl, .access fun _ => rfl, id,
      fun s₀ hd => .step g hd ht⟩
  · obtain ⟨rfl, rfl, rfl, rfl⟩ := hone hf
    refine .inr ⟨.flying (some 0), by simpa using h.settle 0, hother _, rfl, rfl, rfl,
      .access fun _ => rfl, ?_, fun s₀ hd => ended_zero.mpr ⟨w.store, t, hd, ht, rfl⟩⟩
    intro _ sf hsf
    cases hsf
    exact .inl rfl
  · obtain ⟨rfl, rfl, rfl, rfl⟩ := hone hf
    refine .inr ⟨.flying (some sf), by simpa using h.settle sf, hother _, rfl, rfl, rfl, .refl ..,
      ?_, fun s₀ hd => (ended_error hsf.2.1).mpr hd⟩
    intro _ sf' hsf'
    cases hsf'
    exact .inr hsf
  · obtain ⟨rfl, rfl, rfl, rfl⟩ := hone hf
    exact .inr ⟨.posted sf, by simpa using h.post, hother _, rfl, rfl, rfl, .refl .., id,
      fun s₀ hd => hd⟩

end Nvme
