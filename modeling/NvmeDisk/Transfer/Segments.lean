import NvmeDisk.Model.Controller
import NvmeDisk.Model.Driver

/-! What `nvme_prpl_xfer` puts into a command, decoded as the controller decodes it. On every path the
    segments of PRP1, PRP2 and the list are, in order, exactly the bytes to be moved: the caller's
    buffer on the direct paths, the bounce page otherwise. -/

namespace Nvme
open Bytes BlockDev

/-- Block sizes the driver's arithmetic is right for. -/
structure GoodBlock (B : Nat) : Prop where
  pos : 0 < B
  page : B ∣ 4096

/-- What the transfer functions are asked to move, and where the bounce page lies: the buffer is
    inside the 32-bit address space and off the page. -/
structure Fits (B dma buf count : Nat) : Prop where
  block : GoodBlock B
  pos : 1 ≤ count
  most : count ≤ 65535
  top : buf + count * B ≤ 4294967296
  dmaPage : dma % 4096 = 0
  dmaTop : dma + 4096 ≤ 4294967296
  apart : ∀ o < count * B, ¬ (dma ≤ buf + o ∧ buf + o < dma + 4096)

variable {B dma buf count : Nat} {ns : NvmeNamespace} {m : Mem} {prpl : List Nat}

theorem GoodBlock.le (h : GoodBlock B) : B ≤ 4096 := Nat.le_of_dvd (by omega) h.page

theorem goodBlock_pow {B k : Nat} (h : B = 2 ^ k) (h9 : 9 ≤ k) (h12 : k ≤ 12) :
    GoodBlock B ∧ B % 4 = 0 := by
  rw [h]
  refine ⟨⟨Nat.two_pow_pos k, Nat.pow_dvd_pow 2 h12⟩, ?_⟩
  exact Nat.mod_eq_zero_of_dvd (Nat.pow_dvd_pow 2 (show 2 ≤ k by omega))

theorem and_page (x : Nat) : x &&& (nvmePageSize - 1) = x % 4096 :=
  Nat.and_two_pow_sub_one_eq_mod x 12

theorem and_three (x : Nat) : x &&& 0x3 = x % 4 := Nat.and_two_pow_sub_one_eq_mod x 2

theorem misaligned_iff (prp1 prp2 : Nat) : misaligned prp1 prp2 ↔ prp1 % 4 ≠ 0 ∨ prp2 % 4 ≠ 0 := by
  rw [misaligned, and_three, and_three]

theorem Fits.size (h : Fits B dma buf count) : count * B < 268435456 := by
  have := Nat.mul_le_mul h.most h.block.le
  omega

/-- Fewer blocks fit too. -/
theorem Fits.less (h : Fits B dma buf count) {n : Nat} (h1 : 1 ≤ n) (hn : n ≤ count) :
    Fits B dma buf n := by
  have hmul := Nat.mul_le_mul_right B hn
  exact { h with
    pos := h1
    most := hn.trans h.most
    top := (Nat.add_le_add_left hmul _).trans h.top
    apart := fun o ho => h.apart o (ho.trans_le hmul) }

theorem prplEntries_bound : ∀ (slots base : Nat) (size : Int), base < 4294967296 →
    (prplEntries slots base size).1.length ≤ slots ∧
      ∀ x ∈ (prplEntries slots base size).1, x < 4294967296
  | 0, base, size, _ => by
    rw [prplEntries]
    split <;> simp
  | slots + 1, base, size, hb => by
    obtain ⟨hlen, hlt⟩ := prplEntries_bound slots (u32 (base + nvmePageSize)) (size - nvmePageSize)
      (Nat.mod_lt _ (by omega))
    rw [prplEntries]
    split
    · refine ⟨Nat.succ_le_succ hlen, fun x hx => ?_⟩
      rcases List.mem_cons.mp hx with rfl | hx
      · exact hb
      · exact hlt x hx
    · simp

/-- Nothing left, no entry. -/
theorem prplEntries_done (slots base : Nat) {size : Int} (h : size ≤ 0) :
    prplEntries slots base size = ([], true) := by
  cases slots <;> rw [prplEntries, if_neg (by omega)]

/-! ### Which way -/

/-- The way taken, in terms of offset and size. -/
inductive Way (B buf count : Nat) : Path → Prop where
  | single : buf % 4096 + count * B ≤ 4096 → Way B buf count .single
  | two : buf % 4096 = 0 → 4096 < count * B → count * B ≤ 8192 → Way B buf count .two
  | list (l) : buf % 4096 = 0 → 8192 < count * B →
      prplEntries 15 (u32 (buf + 4096)) (count * B - 4096 : Nat) = (l, true) →
      Way B buf count (.list l)
  | bounce (l) : 4096 < buf % 4096 + count * B → l.length ≤ 15 → Way B buf count (.bounce l)

theorem prplPath_way (hB : GoodBlock ns.blockSize) (hcount : count ≤ 65535) (buf : Nat) :
    Way ns.blockSize buf count (prplPath ns buf count) := by
  have hsize : count * ns.blockSize < 268435456 := by
    have := Nat.mul_le_mul hcount hB.le
    omega
  have hoff := Nat.mod_lt buf (show 0 < 4096 by omega)
  have hu : u32 (count * ns.blockSize) = count * ns.blockSize := Nat.mod_eq_of_lt (by omega)
  have hu' : u32 (count * ns.blockSize + buf % 4096) = count * ns.blockSize + buf % 4096 :=
    Nat.mod_eq_of_lt (by omega)
  have hs : s32 (count * ns.blockSize) = (count * ns.blockSize : Nat) := by
    rw [s32, Nat.mod_eq_of_lt (by omega), if_pos (by omega)]
    omega
  have hpage : nvmePageSize = 4096 := rfl
  simp only [prplPath, and_page, hu, hu', hs]
  by_cases h1 : count * ns.blockSize + buf % 4096 ≤ nvmePageSize
  · rw [if_pos h1]
    exact .single (by omega)
  · rw [if_neg h1]
    by_cases h2 : buf % 4096 ≠ 0
    · rw [if_pos h2]
      exact .bounce [] (by omega) (by simp)
    · rw [if_neg h2]
      by_cases h3 : count * ns.blockSize &&& (ns.blockSize - 1) ≠ 0
      · rw [if_pos h3]
        exact .bounce [] (by omega) (by simp)
      · rw [if_neg h3]
        by_cases h4 : nvmePageSize * 2 < count * ns.blockSize
        · rw [if_pos h4]
          rcases hr : prplEntries nvmeMaxPrplEntries (u32 (buf + nvmePageSize))
            ((count * ns.blockSize : Nat) - (nvmePageSize : Nat)) with ⟨prpl, fits⟩
          cases fits with
          | false =>
            have hlen := (prplEntries_bound nvmeMaxPrplEntries (u32 (buf + nvmePageSize))
              ((count * ns.blockSize : Nat) - (nvmePageSize : Nat)) (Nat.mod_lt _ (by omega))).1
            rw [hr] at hlen
            exact .bounce prpl (by omega) hlen
          | true =>
            refine .list _ (by omega) (by omega) ?_
            rw [← hr, Nat.cast_sub (by omega)]
        · rw [if_neg h4, if_pos (by omega)]
          exact .two (by omega) (by omega) (by omega)

/-! ### The list -/

/-- The list words stand at `a`. -/
def Holds (m : Mem) (a : Nat) (l : List Nat) : Prop :=
  ∀ k < l.length, load m (a + 8 * k) 8 = l.getD k 0

/-- The driver's writing of a list. -/
theorem holds_storeWords (m : Mem) (a : Nat) {l : List Nat} (hl : ∀ x ∈ l, x < 4294967296) :
    Holds (storeWords m a l) a l := by
  intro k hk
  refine load_storeWords m a l k hk ?_
  have hmem : l.getD k 0 ∈ l := by
    rw [List.getD_eq_getElem _ _ hk]
    exact List.getElem_mem hk
  exact (hl _ hmem).trans (by decide)

theorem Holds.tail {a x : Nat} {l : List Nat} (h : Holds m a (x :: l)) : Holds m (a + 8) l := by
  intro k hk
  have := h (k + 1) (by rw [List.length_cons]; omega)
  rwa [show a + 8 * (k + 1) = a + 8 + 8 * k by omega, List.getD_cons_succ] at this

/-- A list within one page, read back by the controller: the pages it names, one for each entry, tile
    the buffer. -/
theorem prpList_tiles : ∀ (slots base : Nat) (size : Int) (l : List Nat) (a fuel : Nat),
    prplEntries slots (u32 base) size = (l, true) → base % 4096 = 0 →
    base + size.toNat ≤ 4294967296 → Holds m a l → a % 4096 + 8 * l.length < 4096 →
    l.length < fuel → ∃ segs, prpList m fuel a size.toNat = some segs ∧
      Tiles base segs size.toNat ∧ segs.map (·.1) = l := by
  have hpage : nvmePageSize = 4096 := rfl
  intro slots
  induction slots with
  | zero =>
    intro base size l a fuel hl _ _ _ _ hf
    rw [prplEntries] at hl
    split at hl
    · cases hl
    · obtain ⟨f, rfl⟩ : ∃ f, fuel = f + 1 := ⟨fuel - 1, by omega⟩
      have hsize : size.toNat = 0 := by omega
      rw [hsize, prpList, if_pos rfl]
      exact ⟨[], rfl, rfl, (Prod.mk.inj hl).1⟩
  | succ slots ih =>
    intro base size l a fuel hl halign htop hholds hroom hf
    obtain ⟨f, rfl⟩ : ∃ f, fuel = f + 1 := ⟨fuel - 1, by omega⟩
    rw [prplEntries] at hl
    split at hl
    · rename_i hpos
      have hbase : u32 base = base := Nat.mod_eq_of_lt (by omega)
      rcases hr : prplEntries slots (u32 (u32 base + nvmePageSize)) (size - nvmePageSize) with ⟨l', b⟩
      rw [hr] at hl
      obtain ⟨rfl, rfl⟩ := Prod.mk.inj hl
      rw [hbase] at hr hholds
      have hword : load m a 8 = base := hholds 0 (by rw [List.length_cons]; omega)
      dsimp only at hholds hroom hf
      rw [List.length_cons] at hroom hf
      rw [prpList, if_neg (by omega), hword, hpage, if_neg (by omega), if_neg (by omega)]
      rcases Int.lt_or_le 4096 size with hmore | hlast
      · obtain ⟨segs, hsegs, htiles, haddrs⟩ := ih (base + 4096) (size - 4096) l' (a + 8) f hr
          (by omega) (by omega) hholds.tail (by omega) (by omega)
        rw [show (size - 4096).toNat = size.toNat - 4096 by omega] at hsegs htiles
        refine ⟨(base, min size.toNat 4096) :: segs, by rw [hsegs]; rfl, ⟨rfl, by omega, ?_⟩, ?_⟩
        · rwa [show min size.toNat 4096 = 4096 by omega]
        · rw [List.map_cons, haddrs, hbase]
      · obtain ⟨g, rfl⟩ : ∃ g, f = g + 1 := ⟨f - 1, by omega⟩
        rw [show size.toNat - 4096 = 0 by omega, prpList, if_pos rfl]
        refine ⟨[(base, min size.toNat 4096)], rfl, ⟨rfl, by omega, ?_⟩, ?_⟩
        · rw [Tiles]
          omega
        · have hlast' : l' = [] := by
            rw [prplEntries_done _ _ (by omega)] at hr
            exact (Prod.mk.inj hr).1.symm
          rw [hlast', hbase]
          rfl
    · have hsize : size.toNat = 0 := by omega
      rw [hsize, prpList, if_pos rfl]
      exact ⟨[], rfl, rfl, (Prod.mk.inj hl).1⟩

/-- A list that reaches the end of the buffer leaves at most a page for each slot. -/
theorem prplEntries_size : ∀ (slots base : Nat) (size : Int) (l : List Nat),
    prplEntries slots base size = (l, true) → size ≤ 4096 * slots
  | 0, base, size, l, h => by
    rw [prplEntries] at h
    split at h
    · cases h
    · omega
  | slots + 1, base, size, l, h => by
    rw [prplEntries] at h
    split at h
    · have := prplEntries_size slots _ (size - nvmePageSize) _ (Prod.ext rfl (Prod.mk.inj h).2)
      rw [show (nvmePageSize : Int) = 4096 from rfl] at this
      omega
    · omega

/-! ### The three direct ways -/

/-- The second PRP of a direct transfer. -/
def Path.prp2 (dma buf : Nat) : Path → Nat
  | .two => u32 (buf + nvmePageSize)
  | .list _ => dma
  | _ => 0

/-- The list words a direct transfer relies on. -/
def Path.words : Path → List Nat
  | .list l => l
  | _ => []

def Path.Direct : Path → Prop
  | .bounce _ => False
  | _ => True

instance (p : Path) : Decidable p.Direct := by
  unfold Path.Direct
  cases p <;> infer_instance

theorem Way.words_bound {p : Path} (h : Way B buf count p) :
    p.words.length ≤ 15 ∧ ∀ x ∈ p.words, x < 4294967296 := by
  cases h with
  | list l _ _ hl =>
    have := prplEntries_bound 15 (u32 (buf + 4096)) (count * B - 4096 : Nat) (Nat.mod_lt _ (by omega))
    rwa [hl] at this
  | _ => simp [Path.words]

/-- Direct transfers move at most 64 KiB. -/
theorem Way.size_le {p : Path} (h : Way B buf count p) (hd : p.Direct) : count * B ≤ 65536 := by
  cases h with
  | single h => omega
  | two _ _ h => omega
  | list l _ _ hl =>
    have := prplEntries_size _ _ _ _ hl
    omega
  | bounce l _ _ => exact hd.elim

/-- The controller finds the caller's buffer, whole and in order; after PRP1 it takes the list entries
    one by one. -/
theorem Way.segs {p : Path} (h : Way B buf count p) (hd : p.Direct)
    (htop : buf + count * B ≤ 4294967296) (hdma : dma % 4096 = 0) (halign : buf % 4 = 0)
    (hm : Holds m dma p.words) : ∃ segs,
    dataSegs m buf (p.prp2 dma buf) (count * B) = some segs ∧ Tiles buf segs (count * B) ∧
      (p ≠ .two → segs.tail.map (·.1) = p.words) := by
  have hpage : nvmePageSize = 4096 := rfl
  cases h with
  | single hsize =>
    refine ⟨[(buf, min (count * B) (4096 - buf % 4096))], ?_, ⟨rfl, by omega, ?_⟩, fun _ => rfl⟩
    · rw [dataSegs, hpage, if_neg (by omega), if_pos (by omega)]
    · rw [Tiles]
      omega
  | two hoff hgt hle =>
    have hsecond : u32 (buf + 4096) = buf + 4096 := Nat.mod_eq_of_lt (by omega)
    refine ⟨[(buf, min (count * B) (4096 - buf % 4096)),
      (buf + 4096, count * B - min (count * B) (4096 - buf % 4096))],
      ?_, ⟨rfl, by omega, by omega, by omega, ?_⟩, fun hne => absurd rfl hne⟩
    · rw [dataSegs, Path.prp2, hpage, hsecond, if_neg (by omega), if_neg (by omega),
        if_pos (by omega), if_pos (by omega)]
    · rw [Tiles]
      omega
  | list l hoff hgt hl =>
    have hlen : l.length ≤ 15 := (Way.list l hoff hgt hl).words_bound.1
    have hroom : dma % 4096 + 8 * l.length < 4096 := by omega
    have hfuel : l.length < 2 * (count * B) := by omega
    have hrest := Int.toNat_natCast (count * B - 4096)
    obtain ⟨segs, hsegs, htiles, haddrs⟩ := prpList_tiles 15 (buf + 4096) (count * B - 4096 : Nat) l
      dma (2 * (count * B)) hl (by omega) (by rw [hrest]; omega) hm hroom hfuel
    rw [hrest] at hsegs htiles
    refine ⟨(buf, 4096) :: segs, ?_, ⟨rfl, by omega, htiles⟩, fun _ => haddrs⟩
    rw [dataSegs, Path.prp2, hpage, if_neg (by omega), if_neg (by omega), if_neg (by omega),
      if_pos (by omega), show min (count * B) (4096 - buf % 4096) = 4096 by omega, hsegs]
    rfl
  | bounce l _ _ => exact hd.elim

/-! ### The bounce page -/

theorem bounceBlocks_eq (ns : NvmeNamespace) (count : Nat) :
    bounceBlocks ns count = min count (4096 / ns.blockSize) := by
  have hle : 4096 / ns.blockSize ≤ 4096 := Nat.div_le_self ..
  have hu : u16 (nvmePageSize / ns.blockSize) = 4096 / ns.blockSize :=
    Nat.mod_eq_of_lt (Nat.lt_of_le_of_lt hle (by decide))
  rw [bounceBlocks, hu]
  split <;> omega

/-- One bounce moves at least a block and at most the page. -/
theorem bounceBlocks_bounds (hB : GoodBlock ns.blockSize) {count : Nat} (h1 : 1 ≤ count) :
    1 ≤ bounceBlocks ns count ∧ bounceBlocks ns count ≤ count ∧
      bounceBlocks ns count * ns.blockSize ≤ 4096 := by
  have hone : 1 ≤ 4096 / ns.blockSize := (Nat.one_le_div_iff hB.pos).mpr hB.le
  rw [bounceBlocks_eq]
  refine ⟨by omega, by omega, ?_⟩
  calc min count (4096 / ns.blockSize) * ns.blockSize
      ≤ 4096 / ns.blockSize * ns.blockSize := Nat.mul_le_mul_right _ (by omega)
    _ ≤ 4096 := Nat.div_mul_le_self ..

/-- The controller finds the bounce page. -/
theorem bounce_segs {len : Nat} (hlen : len ≤ 4096) (hdma : dma % 4096 = 0) :
    dataSegs m dma 0 len = some [(dma, len)] ∧ Tiles dma [(dma, len)] len := by
  have hpage : nvmePageSize = 4096 := rfl
  refine ⟨?_, rfl, Nat.le_refl _, ?_⟩
  · rw [dataSegs, hpage, if_neg (by omega), if_pos (by omega),
      show min len (4096 - dma % 4096) = len by omega]
  · rw [Tiles]
    omega

end Nvme
