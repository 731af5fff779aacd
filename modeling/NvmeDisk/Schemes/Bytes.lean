import Mathlib.Data.Nat.ModEq
import Mathlib.Tactic.Ring

/-! Byte memories as functions from addresses: range overwrites, little-endian words, and the
    scatter/gather lists a DMA engine walks. A list of segments that tiles one range is as good as
    the range (`scatter_tiles`, `gather_tiles`). -/

namespace Bytes

abbrev Mem := Nat → UInt8

/-- Overwrite the `n` bytes from `a` on with `f 0, f 1, …`. -/
def fill (m : Mem) (a n : Nat) (f : Nat → UInt8) : Mem :=
  fun x => if a ≤ x ∧ x < a + n then f (x - a) else m x

/-- `memcpy(dst, src, n)`. -/
def copy (m : Mem) (dst src n : Nat) : Mem := fill m dst n fun o => m (src + o)

theorem fill_out {m : Mem} {a n x : Nat} {f : Nat → UInt8} (h : x < a ∨ a + n ≤ x) :
    fill m a n f x = m x := if_neg (by omega)

theorem fill_in {m : Mem} {a n o : Nat} {f : Nat → UInt8} (h : o < n) :
    fill m a n f (a + o) = f o := by
  rw [fill, if_pos (by omega), Nat.add_sub_cancel_left]

@[simp] theorem fill_zero (m : Mem) (a : Nat) (f : Nat → UInt8) : fill m a 0 f = m := by
  funext x
  exact fill_out (by omega)

theorem fill_congr {m : Mem} {a n : Nat} {f g : Nat → UInt8} (h : ∀ o < n, f o = g o) :
    fill m a n f = fill m a n g := by
  funext x
  simp only [fill]
  split
  · exact h _ (by omega)
  · rfl

/-- Two memories that agree off a range agree everywhere once the range is overwritten. -/
theorem fill_agree {m m' : Mem} {a n : Nat} {f : Nat → UInt8}
    (h : ∀ x, x < a ∨ a + n ≤ x → m x = m' x) : fill m a n f = fill m' a n f := by
  funext x
  simp only [fill]
  split
  · rfl
  · exact h x (by omega)

/-- Two adjacent overwrites are one. -/
theorem fill_append (m : Mem) (a n k : Nat) (f : Nat → UInt8) :
    fill (fill m a n f) (a + n) k (fun o => f (n + o)) = fill m a (n + k) f := by
  funext x
  simp only [fill]
  by_cases h1 : a + n ≤ x ∧ x < a + n + k
  · rw [if_pos h1, if_pos (by omega), show n + (x - (a + n)) = x - a by omega]
  · rw [if_neg h1]
    by_cases h2 : a ≤ x ∧ x < a + n
    · rw [if_pos h2, if_pos (by omega)]
    · rw [if_neg h2, if_neg (by omega)]

/-! ### Little-endian words -/

/-- The `n`-byte little-endian word at `a`. -/
def load (m : Mem) (a : Nat) : Nat → Nat
  | 0 => 0
  | n + 1 => (m a).toNat + 256 * load m (a + 1) n

theorem load_of_bytes (m : Mem) : ∀ (n a v : Nat),
    (∀ o < n, m (a + o) = UInt8.ofNat (v / 256 ^ o)) → load m a n = v % 256 ^ n
  | 0, _, v, _ => by simp [load, Nat.mod_one]
  | n + 1, a, v, h => by
    have h0 : m a = UInt8.ofNat v := by simpa using h 0 (by omega)
    have hrest : load m (a + 1) n = v / 256 % 256 ^ n := by
      refine load_of_bytes m n (a + 1) (v / 256) fun o ho => ?_
      have := h (o + 1) (by omega)
      rw [Nat.div_div_eq_div_mul, ← Nat.pow_succ', ← this]
      congr 1; omega
    rw [load, h0, hrest, Nat.pow_succ', Nat.mod_mul]
    rfl

/-- Store 64-bit words one after another from `a` on. -/
def storeWords (m : Mem) (a : Nat) (vs : List Nat) : Mem :=
  fill m a (8 * vs.length) fun o => UInt8.ofNat (vs.getD (o / 8) 0 / 256 ^ (o % 8))

theorem load_storeWords (m : Mem) (a : Nat) (vs : List Nat) (i : Nat) (hi : i < vs.length)
    (hv : vs.getD i 0 < 256 ^ 8) : load (storeWords m a vs) (a + 8 * i) 8 = vs.getD i 0 := by
  rw [load_of_bytes _ 8 (a + 8 * i) (vs.getD i 0), Nat.mod_eq_of_lt hv]
  intro o ho
  rw [storeWords, Nat.add_assoc, fill_in (by omega)]
  rw [show (8 * i + o) / 8 = i by omega, show (8 * i + o) % 8 = o by omega]

/-- A word depends on its own bytes only. -/
theorem load_congr {m m' : Mem} : ∀ (n a : Nat), (∀ o < n, m (a + o) = m' (a + o)) →
    load m a n = load m' a n
  | 0, _, _ => rfl
  | n + 1, a, h => by
    have h0 : m a = m' a := by simpa using h 0 (by omega)
    have hrest : load m (a + 1) n = load m' (a + 1) n := by
      refine load_congr n (a + 1) fun o ho => ?_
      have := h (o + 1) (by omega)
      rwa [show a + (o + 1) = a + 1 + o by omega] at this
    rw [load, load, h0, hrest]

/-! ### Segments -/

/-- A segment: start address and length in bytes. -/
abbrev Seg := Nat × Nat

/-- Write a byte stream to the segments in order. -/
def scatter (m : Mem) : List Seg → (Nat → UInt8) → Mem
  | [], _ => m
  | (a, n) :: s, f => scatter (fill m a n f) s fun o => f (n + o)

/-- The byte stream read from the segments in order. -/
def gather (m : Mem) : List Seg → Nat → UInt8
  | [], _ => 0
  | (a, n) :: s, o => if o < n then m (a + o) else gather m s (o - n)

/-- The segments are, in order, exactly the `n` bytes from `a` on. -/
def Tiles : Nat → List Seg → Nat → Prop
  | _, [], n => n = 0
  | a, (b, l) :: s, n => b = a ∧ l ≤ n ∧ Tiles (a + l) s (n - l)

theorem scatter_tiles : ∀ (s : List Seg) (m : Mem) (a n : Nat) (f : Nat → UInt8),
    Tiles a s n → scatter m s f = fill m a n f
  | [], m, a, n, f, h => by rw [Tiles] at h; rw [h, fill_zero]; rfl
  | (b, l) :: s, m, a, n, f, ⟨hb, hl, ht⟩ => by
    subst hb
    rw [scatter, scatter_tiles s _ _ _ _ ht, fill_append, Nat.add_sub_cancel' hl]

theorem gather_tiles : ∀ (s : List Seg) (m : Mem) (a n o : Nat),
    Tiles a s n → o < n → gather m s o = m (a + o)
  | [], _, _, n, o, h, ho => by rw [Tiles] at h; omega
  | (b, l) :: s, m, a, n, o, ⟨hb, hl, ht⟩, ho => by
    subst hb
    rw [gather]
    split
    · rfl
    · rename_i hge
      rw [gather_tiles s m _ _ _ ht (by omega)]
      congr 1; omega

/-- The addresses of the segments' bytes, in order. -/
def bytesOf (segs : List Seg) : List Nat := segs.flatMap fun s => List.range' s.1 s.2

theorem length_bytesOf (segs : List Seg) : (bytesOf segs).length = (segs.map (·.2)).sum := by
  simp [bytesOf]

theorem bytesOf_tiles : ∀ (s : List Seg) (a n : Nat), Tiles a s n → bytesOf s = List.range' a n
  | [], a, n, h => by rw [Tiles] at h; rw [h]; rfl
  | (b, l) :: s, a, n, ⟨hb, hl, ht⟩ => by
    subst hb
    rw [bytesOf, List.flatMap_cons, ← bytesOf, bytesOf_tiles s _ _ ht]
    rw [show n = l + (n - l) by omega, ← List.range'_append_1]
    simp

end Bytes
