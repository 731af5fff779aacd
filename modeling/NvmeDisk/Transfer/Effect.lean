import NvmeDisk.Queue.Moves

/-! What a read or write command has done to memory and disk, whatever the controller does on its way.
    A command whose PRPs describe one range is, once executed, a block device move of that range; at
    any time before, and if it fails, it has changed nothing but the target of the move. -/

namespace Nvme
open Bytes BlockDev

/-- As long as `Keep` holds of memory, command `e` moves `len` bytes between disk position `pos` and
    memory from `a` on; overwriting those does not disturb `Keep`. -/
structure Targets (d : Device) (e : NvmeSqe) (Keep : Mem → Prop) (write : Bool) (pos a len : Nat) :
    Prop where
  transfer : ∀ s : Store, Keep s.mem → ∃ segs, Tiles a segs len ∧ transferOf d s .io e =
    some (if write then .toDisk pos len segs else .toHost segs fun o => s.disk (pos + o))
  keep : write = false → ∀ m f, Keep m → Keep (fill m a len f)

variable {d : Device} {e : NvmeSqe} {Keep : Mem → Prop} {write : Bool} {pos a len sf : Nat}
  {s s₀ : Store} {t : Transfer}

/-- One partial transfer stays on the target. -/
theorem Targets.part (h : Targets d e Keep write pos a len) (hk : Keep s.mem)
    (ht : transferOf d s .io e = some t) (g : Nat → UInt8) :
    Torn write s pos a len (t.part g s) ∧ Keep (t.part g s).mem := by
  obtain ⟨segs, htiles, htr⟩ := h.transfer s hk
  rw [ht] at htr
  cases write with
  | true =>
    obtain rfl : t = .toDisk pos len segs := by simpa using htr
    exact ⟨torn_write.mpr ⟨rfl, fun _ hx => fill_out hx⟩, hk⟩
  | false =>
    obtain rfl : t = .toHost segs fun o => s.disk (pos + o) := by simpa using htr
    simp only [Transfer.part, scatter_tiles _ _ _ _ _ htiles]
    exact ⟨torn_read.mpr ⟨rfl, fun _ hx => fill_out hx⟩, h.keep rfl _ _ hk⟩

/-- The full transfer is the move. -/
theorem Targets.full (h : Targets d e Keep write pos a len) (hk : Keep s.mem)
    (ht : transferOf d s .io e = some t) : t.full s = move write s pos a len := by
  obtain ⟨segs, htiles, htr⟩ := h.transfer s hk
  rw [ht] at htr
  cases write with
  | true =>
    obtain rfl : t = .toDisk pos len segs := by simpa using htr
    simp only [Transfer.full, move, if_true]
    rw [fill_congr fun o ho => gather_tiles _ _ _ _ _ htiles ho]
  | false =>
    obtain rfl : t = .toHost segs fun o => s.disk (pos + o) := by simpa using htr
    simp only [Transfer.full, move, Bool.false_eq_true, if_false, scatter_tiles _ _ _ _ _ htiles]

theorem Targets.parts (h : Targets d e Keep write pos a len) (hk : Keep s₀.mem)
    (hp : Parts d .io e s₀ s) : Torn write s₀ pos a len s ∧ Keep s.mem := by
  induction hp with
  | refl => exact ⟨.refl .., hk⟩
  | step g _ ht ih =>
    obtain ⟨htorn, hk'⟩ := h.part ih.2 ht g
    exact ⟨ih.1.trans htorn, hk'⟩

/-- CORRECT: a command that succeeded is a block device move. -/
theorem Targets.moved (h : Targets d e Keep write pos a len) (hk : Keep s₀.mem)
    (he : Ended d .io e s₀ 0 s) : s = move write s₀ pos a len := by
  obtain ⟨s₁, t, hp, ht, rfl⟩ := ended_zero.mp he
  obtain ⟨htorn, hk'⟩ := h.parts hk hp
  rw [h.full hk' ht, htorn.move]

theorem Targets.ended (h : Targets d e Keep write pos a len) (hk : Keep s₀.mem)
    (he : Ended d .io e s₀ sf s) : Torn write s₀ pos a len s := by
  by_cases hsf : sf = 0
  · subst hsf
    rw [h.moved hk he]
    exact torn_move ..
  · exact (h.parts hk ((ended_error hsf).mp he)).1

/-- At every stage the command has changed at most its target. -/
theorem Targets.data (h : Targets d e Keep write pos a len) (hk : Keep s₀.mem) {st : Stage}
    (hd : st.Data d .io e s₀ s) : Torn write s₀ pos a len s := by
  cases st with
  | queued =>
    cases hd
    exact .refl ..
  | flying sf =>
    cases sf with
    | none => exact (h.parts hk hd).1
    | some sf => exact h.ended hk hd
  | posted sf => exact h.ended hk hd

/-! ### Commands that cannot succeed -/

/-- There is no way to execute command `e`. -/
def Refused (d : Device) (e : NvmeSqe) : Prop := ∀ s : Store, transferOf d s .io e = none

theorem Refused.parts (h : Refused d e) (hp : Parts d .io e s₀ s) : s = s₀ := by
  induction hp with
  | refl => rfl
  | step g _ ht _ =>
    rw [h] at ht
    cases ht

theorem Refused.ended (h : Refused d e) (he : Ended d .io e s₀ sf s) : sf ≠ 0 ∧ s = s₀ := by
  by_cases hsf : sf = 0
  · subst hsf
    obtain ⟨s₁, t, _, ht, _⟩ := ended_zero.mp he
    rw [h] at ht
    cases ht
  · exact ⟨hsf, h.parts ((ended_error hsf).mp he)⟩

theorem Refused.data (h : Refused d e) {st : Stage} (hd : st.Data d .io e s₀ s) : s = s₀ := by
  cases st with
  | queued => exact hd
  | flying sf =>
    cases sf with
    | none => exact h.parts hd
    | some sf => exact (h.ended hd).2
  | posted sf => exact (h.ended hd).2

end Nvme
