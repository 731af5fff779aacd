import Mathlib.Data.Nat.Bitwise
import Mathlib.Data.Nat.Find
import Mathlib.Tactic.Common

/-! Ring positions as free-running counters: counter `n` stands at index `n % L`, and entry `n` of a
    phase-tagged ring carries `phase L n`, which toggles on each pass. A driver that advances with a
    bit mask agrees with the counter exactly when the length is a power of two. -/

namespace Ring

/-- A ring length the mask arithmetic is right for: a power of two, at least two. -/
def Pow2 (L : Nat) : Prop := ∃ k, 1 ≤ k ∧ L = 2 ^ k

theorem Pow2.ofFact {L : Nat} [h : Fact (Pow2 L)] : Pow2 L := h.out

theorem Pow2.two_le {L : Nat} (h : Pow2 L) : 2 ≤ L := by
  obtain ⟨k, hk, rfl⟩ := h
  calc 2 = 2 ^ 1 := rfl
    _ ≤ 2 ^ k := Nat.pow_le_pow_right (by omega) hk

theorem Pow2.pos {L : Nat} (h : Pow2 L) : 0 < L := by have := h.two_le; omega

theorem Pow2.and_mask {L : Nat} (h : Pow2 L) (x : Nat) : x &&& (L - 1) = x % L := by
  obtain ⟨k, _, rfl⟩ := h
  exact Nat.and_two_pow_sub_one_eq_mod x k

/-- The index either moves up by one within the pass, or wraps to zero on the next pass. -/
theorem mod_succ_cases (n L : Nat) (hL : 0 < L) :
    (n % L + 1 < L ∧ (n + 1) % L = n % L + 1 ∧ (n + 1) / L = n / L) ∨
      (n % L + 1 = L ∧ (n + 1) % L = 0 ∧ (n + 1) / L = n / L + 1) := by
  have hlt := Nat.mod_lt n hL
  have hdm := Nat.div_add_mod n L
  rcases Nat.lt_or_ge (n % L + 1) L with h | h
  · left
    have he : n + 1 = (n % L + 1) + L * (n / L) := by omega
    refine ⟨h, ?_, ?_⟩
    · rw [he, Nat.add_mul_mod_self_left, Nat.mod_eq_of_lt h]
    · rw [he, Nat.add_mul_div_left _ _ hL, Nat.div_eq_of_lt h, Nat.zero_add]
  · right
    have hr : n % L + 1 = L := by omega
    have he : n + 1 = 0 + L * (n / L + 1) := by rw [Nat.mul_add]; omega
    refine ⟨hr, ?_, ?_⟩
    · rw [he, Nat.add_mul_mod_self_left, Nat.zero_mod]
    · rw [he, Nat.add_mul_div_left _ _ hL, Nat.zero_div, Nat.zero_add]

/-- Advancing an index by the mask is advancing its counter. -/
theorem Pow2.advance {L : Nat} (h : Pow2 L) (n : Nat) :
    (n % L + 1) &&& (L - 1) = (n + 1) % L := by
  rw [h.and_mask, Nat.mod_add_mod]

theorem Pow2.succ_mod_ne {L : Nat} (h : Pow2 L) (n : Nat) : (n + 1) % L ≠ n % L := by
  have := h.two_le
  rcases mod_succ_cases n L h.pos with ⟨_, h1, _⟩ | ⟨_, h1, _⟩ <;> omega

/-! ### Phase tags -/

/-- The tag of entry `n`: true on the first pass over the ring, toggled on each pass. -/
def phase (L n : Nat) : Bool := n / L % 2 == 0

theorem phase_succ {L : Nat} (h : 2 ≤ L) (n : Nat) :
    phase L (n + 1) = if (n + 1) % L < n % L then !phase L n else phase L n := by
  rw [phase, phase]
  rcases mod_succ_cases n L (by omega) with ⟨h1, h2, h3⟩ | ⟨h1, h2, h3⟩
  · rw [if_neg (by omega), h3]
  · rw [if_pos (by omega), h3]
    rcases Nat.mod_two_eq_zero_or_one (n / L) with h4 | h4
    · have : (n / L + 1) % 2 = 1 := by omega
      rw [h4, this]; rfl
    · have : (n / L + 1) % 2 = 0 := by omega
      rw [h4, this]; rfl

/-- After `n` entries: slots below the write position carry this pass's tag, the rest the other. -/
def Fresh (L n : Nat) (bit : Nat → Bool) : Prop :=
  ∀ j < L, bit j = if j < n % L then phase L n else !phase L n

/-- The slot about to be written still carries the other tag: it cannot be taken for new. -/
theorem Fresh.stale {L n : Nat} {bit : Nat → Bool} (h : Fresh L n bit) (hL : 0 < L) :
    bit (n % L) = !phase L n := by
  rw [h _ (Nat.mod_lt n hL), if_neg (Nat.lt_irrefl _)]

theorem Fresh.step {L n : Nat} {bit bit' : Nat → Bool} (h : Fresh L n bit) (hL : 2 ≤ L)
    (hnew : bit' (n % L) = phase L n) (hold : ∀ j, j ≠ n % L → bit' j = bit j) :
    Fresh L (n + 1) bit' := by
  intro j hj
  have hp := phase_succ hL n
  rcases mod_succ_cases n L (by omega) with ⟨h1, h2, _⟩ | ⟨h1, h2, _⟩
  · rw [if_neg (by omega)] at hp
    rw [hp, h2]
    by_cases hjn : j = n % L
    · rw [hjn, hnew, if_pos (by omega)]
    · rw [hold j hjn, h j hj]
      by_cases hlt : j < n % L
      · rw [if_pos hlt, if_pos (by omega)]
      · rw [if_neg hlt, if_neg (by omega)]
  · rw [if_pos (by omega)] at hp
    rw [hp, h2, if_neg (by omega), Bool.not_not]
    by_cases hjn : j = n % L
    · rw [hjn, hnew]
    · rw [hold j hjn, h j hj, if_pos (by omega)]

/-! ### Which masks are right -/

/-- Below the lowest clear bit `t` of a mask the masked index is exact, and at `2 ^ t` it is lost. -/
theorem lowest_clear_bit (m : Nat) (hm : ∀ k, m + 1 ≠ 2 ^ k) :
    ∃ t, 2 ^ t ≤ m ∧ 2 ^ t &&& m = 0 ∧ ∀ x < 2 ^ t, x &&& m = x := by
  have hex : ∃ t, m.testBit t = false := ⟨m, Nat.testBit_lt_two_pow m.lt_two_pow_self⟩
  classical
  refine ⟨Nat.find hex, ?_, ?_, ?_⟩
  · -- otherwise all bits of `m` are ones and `m + 1` is a power of two
    by_contra hlt
    refine hm (Nat.find hex) ?_
    have hones : m = 2 ^ Nat.find hex - 1 := by
      apply Nat.eq_of_testBit_eq
      intro i
      rw [Nat.testBit_two_pow_sub_one]
      rcases Nat.lt_or_ge i (Nat.find hex) with hi | hi
      · have := Nat.find_min hex hi
        simp only [Bool.not_eq_false] at this
        simp [this, hi]
      · have hbound : m < 2 ^ i :=
          Nat.lt_of_lt_of_le (by omega) (Nat.pow_le_pow_right (by omega) hi)
        rw [Nat.testBit_lt_two_pow hbound, decide_eq_false (Nat.not_lt.mpr hi)]
    have := Nat.two_pow_pos (Nat.find hex)
    omega
  · apply Nat.eq_of_testBit_eq
    intro i
    rw [Nat.testBit_and, Nat.testBit_two_pow, Nat.zero_testBit]
    by_cases hi : Nat.find hex = i
    · rw [← hi, Nat.find_spec hex, Bool.and_false]
    · simp [hi]
  · intro x hx
    apply Nat.eq_of_testBit_eq
    intro i
    rw [Nat.testBit_and]
    rcases Nat.lt_or_ge i (Nat.find hex) with hi | hi
    · have := Nat.find_min hex hi
      simp only [Bool.not_eq_false] at this
      rw [this, Bool.and_true]
    · have hbound : x < 2 ^ i := Nat.lt_of_lt_of_le hx (Nat.pow_le_pow_right (by omega) hi)
      rw [Nat.testBit_lt_two_pow hbound, Bool.false_and]

end Ring
