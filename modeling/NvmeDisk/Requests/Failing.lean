import NvmeDisk.Requests.Entry

/-! A request of which a command fails: completed with a non-zero status code, or never in time. It is
    the last command of the request, those before it are done, and memory and disk are as they were
    except for what those have moved and the target of the failing one. -/

namespace Nvme
open Ring Resume Bytes BlockDev

def Piece.OnDisk (B : Nat) (p : Piece) (a : Nat) : Prop := p.lba * B ≤ a ∧ a < p.lba * B + p.n * B

def Piece.InMem (B : Nat) (p : Piece) (a : Nat) : Prop := p.addr ≤ a ∧ a < p.addr + p.n * B

/-- A write of which command `f` failed after the commands `pre`: the disk, but for the blocks of
    `f`, and memory off `P`. -/
structure WriteTorn (B : Nat) (P : Nat → Prop) (s : Store) (pre : List Piece) (f : Piece)
    (t : Store) : Prop where
  before : ∀ l p r, pre = l ++ p :: r → ∀ o < p.n * B,
    (∀ q ∈ r ++ [f], ¬ q.OnDisk B (p.lba * B + o)) → t.disk (p.lba * B + o) = s.mem (p.addr + o)
  beyond : ∀ a, (∀ q ∈ pre ++ [f], ¬ q.OnDisk B a) → t.disk a = s.disk a
  mem : ∀ a, ¬ P a → t.mem a = s.mem a

/-- A read of which command `f` failed after the commands `pre`: memory, but for `P` and the bytes
    `f` was to fill, and the disk. -/
structure ReadTorn (B : Nat) (P : Nat → Prop) (s : Store) (pre : List Piece) (f : Piece)
    (t : Store) : Prop where
  before : ∀ p ∈ pre, ∀ o < p.n * B, t.mem (p.addr + o) = s.disk (p.lba * B + o)
  beyond : ∀ a, ¬ P a → (∀ q ∈ pre ++ [f], ¬ q.InMem B a) → t.mem a = s.mem a
  disk : t.disk = s.disk

variable {B : Nat} {P : Nat → Prop} {s t : Store} {pre post ps : List Piece} {f p : Piece}
  {mayFail : Nat → Bool} {ns : NvmeNamespace} {sg : Buf} {id : Nat} {rc : Int} {bufs : List Buf}
  {gs : List (Buf × List Piece)} {L C : Nat} {w : World} {write : Bool}

/-! ### The failing command is the last one -/

/-- Every command but the last succeeded, and the last one too if the request did. -/
structure AllButLast (ps : List Piece) (rc : Int) : Prop where
  front : ∀ p ∈ ps.dropLast, p.sf = some 0
  all : rc = 0 → ∀ p ∈ ps, p.sf = some 0

theorem AllButLast.single (p : Piece) : AllButLast [p] (-1) := ⟨by simp, by simp⟩

theorem AllButLast.nil (rc : Int) : AllButLast [] rc := ⟨by simp, by simp⟩

/-- Commands that succeeded, and more. -/
theorem AllButLast.append (hps : ∀ p ∈ pre, p.sf = some 0) (h : AllButLast ps rc) :
    AllButLast (pre ++ ps) rc := by
  obtain ⟨hfront, hall⟩ := h
  refine ⟨fun p hp => ?_, fun hrc p hp => ?_⟩
  · cases ps with
    | nil =>
      rw [List.append_nil] at hp
      exact hps p (List.dropLast_subset _ hp)
    | cons q ps =>
      rw [List.dropLast_append_of_ne_nil (by simp)] at hp
      rcases List.mem_append.mp hp with hp | hp
      · exact hps p hp
      · exact hfront p hp
  · rcases List.mem_append.mp hp with hp | hp
    · exact hps p hp
    · exact hall hrc p hp

theorem AllButLast.split (h : AllButLast (pre ++ f :: post) rc) (hf : f.sf ≠ some 0) :
    post = [] ∧ (∀ p ∈ pre, p.sf = some 0) ∧ rc ≠ 0 := by
  obtain ⟨hfront, hall⟩ := h
  have hpost : post = [] := by
    by_contra hne
    refine hf (hfront f ?_)
    rw [List.dropLast_append_of_ne_nil (by simp)]
    refine List.mem_append_right _ ?_
    obtain ⟨q, post, rfl⟩ := List.exists_cons_of_ne_nil hne
    exact List.mem_cons_self ..
  subst hpost
  rw [List.dropLast_concat] at hfront
  exact ⟨rfl, hfront, fun hrc => hf (hall hrc f (List.mem_append_right _ (List.mem_singleton.mpr rfl)))⟩

theorem Coded.success (hm : Coded mayFail) {sf : Nat} (hok : OkStatus mayFail sf)
    (hsf : sf % 256 = 0) : sf = 0 := by
  rcases hok with h | ⟨h, _, _⟩
  · exact h
  · exact absurd hsf (hm sf h)

theorem Follows.allButLast (h : Follows mayFail ns sg id ps rc) (hm : Coded mayFail) :
    AllButLast ps rc := by
  induction h with
  | done _ => exact .nil _
  | stray _ _ => exact .nil _
  | late _ _ => exact .single _
  | error _ _ _ _ => exact .single _
  | @next id sf ps rc _ _ hok hsf _ ih =>
    have hone : ∀ p ∈ [pieceAt ns sg id (some sf)], p.sf = some 0 :=
      List.forall_mem_singleton.mpr (by rw [pieceAt, hm.success hok hsf])
    exact .append hone ih

theorem FollowsBufs.allButLast (h : FollowsBufs mayFail ns bufs gs rc) (hm : Coded mayFail) :
    AllButLast (pieces gs) rc := by
  induction h with
  | nil => exact .nil _
  | @stop sg bufs ps hf =>
    rw [pieces, List.flatMap_singleton]
    exact hf.allButLast hm
  | @next sg bufs ps gs rc hf _ ih =>
    rw [pieces, List.flatMap_cons]
    exact .append ((hf.allButLast hm).all rfl) ih

/-- No command moves more than 64 KiB. -/
theorem Follows.size (h : Follows mayFail ns sg id ps rc) (hB : GoodBlock ns.blockSize) :
    ∀ p ∈ ps, p.n * ns.blockSize ≤ 65536 := by
  have hpiece : ∀ id sf, (pieceAt ns sg id sf).n * ns.blockSize ≤ 65536 := fun id sf =>
    movedBlocks_size hB (remaining_le ns sg id) _
  induction h with
  | done _ => simp
  | stray _ _ => simp
  | late _ _ => exact List.forall_mem_singleton.mpr (hpiece _ _)
  | error _ _ _ _ => exact List.forall_mem_singleton.mpr (hpiece _ _)
  | next _ _ _ _ _ ih => exact List.forall_mem_cons.mpr ⟨hpiece _ _, ih⟩

theorem FollowsBufs.size (h : FollowsBufs mayFail ns bufs gs rc) (hB : GoodBlock ns.blockSize) :
    ∀ p ∈ pieces gs, p.n * ns.blockSize ≤ 65536 := by
  induction h with
  | nil => simp
  | @stop sg bufs ps hf =>
    rw [pieces, List.flatMap_singleton]
    exact hf.size hB
  | @next sg bufs ps gs rc hf _ ih =>
    intro p hp
    rcases List.mem_append.mp hp with hp | hp
    · exact hf.size hB p hp
    · exact ih p hp

/-! ### What it leaves behind -/

/-- The last command torn, all before it moved. -/
theorem effect_failing (hpre : ∀ p ∈ pre, p.sf = some 0) (hf : f.sf ≠ some 0)
    (h : Effect P write B s (pre ++ [f]) t) : TornOff P write (serve B write s (pre.map (Piece.buf B)))
      (f.lba * B) f.addr (f.n * B) t := by
  rw [effect_append hpre, Effect, if_neg hf, allMoved_eq] at h
  exact h

theorem not_onDisk {a : Nat} (h : ¬ p.OnDisk B a) : a < p.lba * B ∨ p.lba * B + p.n * B ≤ a := by
  rw [Piece.OnDisk] at h
  omega

theorem not_inMem {a : Nat} (h : ¬ p.InMem B a) : a < p.addr ∨ p.addr + p.n * B ≤ a := by
  rw [Piece.InMem] at h
  omega

theorem writeTorn_of_torn (h : TornOff P true (serve B true s (pre.map (Piece.buf B)))
    (f.lba * B) f.addr (f.n * B) t) : WriteTorn B P s pre f t := by
  obtain ⟨u, hu, htorn⟩ := h
  obtain ⟨hmem, hdisk⟩ := torn_write.mp htorn
  have hout : ∀ a, ¬ f.OnDisk B a → t.disk a = (serve B true s (pre.map (Piece.buf B))).disk a :=
    fun a ha => by rw [hdisk a (not_onDisk ha), hu.1]
  refine ⟨?_, fun a ha => ?_, fun a ha => ?_⟩
  · rintro l p r rfl o ho hlast
    rw [hout _ (hlast f (List.mem_append_right _ (List.mem_singleton.mpr rfl))), List.map_append,
      List.map_cons]
    refine serve_write_last B s _ _ (p.buf B) ho fun c hc => ?_
    obtain ⟨q, hq, rfl⟩ := List.mem_map.mp hc
    exact not_onDisk (hlast q (List.mem_append_left _ hq))
  · rw [hout a (ha f (List.mem_append_right _ (List.mem_singleton.mpr rfl)))]
    refine serve_write_frame B _ s a fun c hc => ?_
    obtain ⟨q, hq, rfl⟩ := List.mem_map.mp hc
    exact not_onDisk (ha q (List.mem_append_left _ hq))
  · rw [hmem, ← hu.2 a ha, serve_write_mem]

theorem readTorn_of_torn (h : TornOff P false (serve B false s (pre.map (Piece.buf B)))
    (f.lba * B) f.addr (f.n * B) t) (hd : Disjoint ((pre ++ [f]).map (Piece.buf B)))
    (hP : ∀ p ∈ pre, ∀ o < p.n * B, ¬ P (p.addr + o)) : ReadTorn B P s pre f t := by
  obtain ⟨u, hu, htorn⟩ := h
  obtain ⟨hdisk, hmem⟩ := torn_read.mp htorn
  rw [List.map_append] at hd
  obtain ⟨hpre, _, hlast⟩ := List.pairwise_append.mp hd
  have hout : ∀ a, ¬ P a → ¬ f.InMem B a →
      t.mem a = (serve B false s (pre.map (Piece.buf B))).mem a :=
    fun a hPa ha => by rw [hmem a (not_inMem ha), hu.2 a hPa]
  refine ⟨fun p hp o ho => ?_, fun a hPa ha => ?_, ?_⟩
  · have happart : p.addr + p.n * B ≤ f.addr ∨ f.addr + f.n * B ≤ p.addr :=
      hlast _ (List.mem_map_of_mem hp) _ (List.mem_singleton.mpr rfl)
    rw [hout _ (hP p hp o ho) (by rw [Piece.InMem]; omega)]
    exact serve_read_fills B _ s hpre (p.buf B) (List.mem_map_of_mem hp) o ho
  · rw [hout a hPa (ha f (List.mem_append_right _ (List.mem_singleton.mpr rfl)))]
    refine serve_read_frame B _ s a fun c hc => ?_
    obtain ⟨q, hq, rfl⟩ := List.mem_map.mp hc
    exact not_inMem (ha q (List.mem_append_left _ hq))
  · rw [hdisk, ← hu.1, serve_read_disk]

/-! ### The request -/

/-- A request of which command `f` failed after the commands `pre`. -/
structure Failed (ns : NvmeNamespace) (write : Bool) (P : Nat → Prop) (s : Store)
    (pre : List Piece) (f : Piece) (post : List Piece) (rc : Int) (t : Store) : Prop where
  result : rc = -1
  last : post = []
  before : ∀ p ∈ pre, p.sf = some 0
  size : f.n * ns.blockSize ≤ 65536
  onWrite : write = true → WriteTorn ns.blockSize P s pre f t
  onRead : write = false → ReadTorn ns.blockSize P s pre f t

/-- No piece of a request touches the scratch region its buffers stay off. -/
theorem InOrder.off (h : InOrder B bufs gs) (hP : ∀ sg ∈ bufs, ∀ o < sg.len, ¬ P (sg.addr + o)) :
    ∀ p ∈ pieces gs, ∀ o < p.n * B, ¬ P (p.addr + o) := by
  intro p hp o ho
  obtain ⟨g, hg, hp⟩ := List.mem_flatMap.mp hp
  have hin := (h.cut g hg).within hp
  have hmem : g.1 ∈ bufs := h.bufs.subset (List.mem_map_of_mem hg)
  have := hP g.1 hmem (p.addr + o - g.1.addr) (by omega)
  rwa [Nat.add_sub_cancel' (by omega)] at this

/-- How the request ends: its account lists the commands submitted, which are the blocks of the
    request in order up to some point, and if one of them failed, that one is torn and no other. -/
def OneTorn (ns : NvmeNamespace) (write : Bool) (id : Nat) (bufs : List Buf) (w : World) (rc : Int)
    (v : World) : Prop :=
  ∃ gs, InOrder ns.blockSize bufs gs ∧
    ledger v.log = (if rc = 0 then [.done id .successful] else []) ++
      ((gs.map (itemOf write)).reverse ++ ledger w.log) ∧
    ∀ pre f post, pieces gs = pre ++ f :: post → f.sf ≠ some 0 →
      Failed ns write (Page w.sys.nvmeDmaBuffer) w.store pre f post rc v.store

/-- CORRECT: a failed request tears at most one command, the last one submitted for it. -/
theorem failed_tears_one (hL : Pow2 L) (hC : Pow2 C) (h : AtEase L C w) (hB : GoodBlock ns.blockSize)
    (hbufs : ∀ sg ∈ bufs, Sound w.dev w.sys.nvmeDmaBuffer ns sg) (hdis : Disjoint bufs)
    {fuel : Nat} (hfuel : 65535 ≤ fuel) (ioctl : Nat → Drv Int) (nvmed : Nvmedisk) (id : Nat)
    (write : Bool) :
    Wp (Nvmec codedFail) (fun _ => True)
      (nvmediskIoctl ns ioctl fuel nvmed (.blkioRequest ⟨id, reqOp write, bufs⟩))
      (OneTorn ns write id bufs w) (fun _ _ => False) w := by
  have : Fact (Pow2 L) := ⟨hL⟩
  have : Fact (Pow2 C) := ⟨hC⟩
  refine wp_mono (h.wp_ioctl coded_codedFail hB (fun sg hsg => (hbufs sg hsg).placed) hfuel ioctl nvmed id)
    (fun _ h => h) ?_
    fun _ _ _ h => h
  rintro rc v _ ⟨gs, hf, hover⟩
  have horder := hf.inOrder hB hbufs
  refine ⟨gs, horder, hover.ledger, fun pre f post hsplit hfsf => ?_⟩
  have hlast := hf.allButLast coded_codedFail
  have hsize := hf.size hB
  have hpieces := horder.disjoint hdis
  have hoff := horder.off fun sg hsg => (hbufs sg hsg).apart
  have heffect := hover.store trivial
  rw [hsplit] at hlast hsize hpieces hoff heffect
  obtain ⟨rfl, hbefore, hrc⟩ := hlast.split hfsf
  have hmem : f ∈ pre ++ [f] := List.mem_append_right _ (List.mem_singleton.mpr rfl)
  have htorn := effect_failing hbefore hfsf heffect
  exact {
    result := hf.result.resolve_left hrc
    last := rfl
    before := hbefore
    size := hsize f hmem
    onWrite := by
      rintro rfl
      exact writeTorn_of_torn htorn
    onRead := by
      rintro rfl
      exact readTorn_of_torn htorn hpieces fun p hp => hoff p (List.mem_append_left _ hp) }

/-! ### A read that fails half way -/

/-- A disk full of `0xAC`. -/
def tornWorld : World :=
  freshWorld sampleSqLen sampleCqLen ⟨fun _ => 0, fun _ => 0xAC⟩ sampleSys sampleDevice

/-- Read block 5 to 1 MiB and block 7 to the page after it. -/
def tornBufs : List Buf := [sampleBuf 5 0, sampleBuf 7 1]

/-- The second command is completed with status code 2. -/
def tornRun : World × Drv Int :=
  follow (nvmeMove codedFail) (none :: oneCommand .io ++ none ::
      [none, none, none, some (.fetch .io), some (.fail .io 0 2), some (.post .io 0), none, none, none])
    tornWorld (nvmediskIoctl sampleNs (fun _ => return 0) 65535 ⟨512, 1000⟩
      (.blkioRequest ⟨1, reqOp false, tornBufs⟩))

theorem failed_tears_one_sample : tornRun.2.value? = some (-1) ∧
    tornRun.1.store.mem 0x100000 = 0xAC ∧ OneTorn sampleNs false 1 tornBufs tornWorld (-1) tornRun.1 := by
  have hret : tornRun.2.value? = some (-1) := by decide +kernel
  have hbufs : ∀ sg ∈ tornBufs, Sound sampleDevice sampleSys.nvmeDmaBuffer sampleNs sg :=
    List.forall_mem_cons.mpr ⟨sampleBuf_sound (by decide) (by decide),
      List.forall_mem_singleton.mpr (sampleBuf_sound (by decide) (by decide))⟩
  refine ⟨hret, by decide +kernel, ?_⟩
  exact (failed_tears_one pow2_two pow2_four (freshWorld_atEase sampleSqLen_pow sampleCqLen_pow rfl _ _)
    sampleNs_goodBlock hbufs (by decide) (le_refl _) _ _ 1 false _ _
    (follow_ret hret fun _ _ h => h)).2

end Nvme
