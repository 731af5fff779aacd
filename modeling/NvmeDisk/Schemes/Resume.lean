import Mathlib.Logic.Relation
import Mathlib.Tactic.Common

/-! Resumable programs: a sequential program as the tree of its atomic actions, run while an
    environment changes the same world between any two of them. `Steps` is every interleaving of
    the program with the environment; `Wp` is the weakest precondition over all of them, with an
    invariant `I` asked of every world on the way; `Duo` is two programs over one world. Nothing
    here knows what the world or the environment is. -/

namespace Resume

/-- A program over worlds `W`: finished, abnormally ended, or one atomic action and what follows
    (the continuation reads the world the action found). -/
inductive Prog (W E α : Type) where
  | ret (a : α)
  | halt (e : E)
  | atom (f : W → W) (k : W → Prog W E α)

variable {W E α β γ M : Type}

namespace Prog

/-- Sequencing: an abnormal end skips what follows. -/
def bind : Prog W E α → (α → Prog W E β) → Prog W E β
  | .ret a, g => g a
  | .halt e, _ => .halt e
  | .atom f k, g => .atom f fun w => (k w).bind g

instance : Monad (Prog W E) where
  pure := .ret
  bind := bind

/-- One atomic action that answers with a value. -/
def act (g : W → α × W) : Prog W E α := .atom (fun w => (g w).2) fun w => .ret (g w).1

/-- An atomic read. -/
def get (g : W → α) : Prog W E α := .atom id fun w => .ret (g w)

/-- An atomic update. -/
def modify (f : W → W) : Prog W E Unit := .atom f fun _ => .ret ()

theorem bind_eq (p : Prog W E α) (g : α → Prog W E β) : p >>= g = p.bind g := rfl

theorem bind_assoc (p : Prog W E α) (g : α → Prog W E β) (h : β → Prog W E γ) :
    (p.bind g).bind h = p.bind fun a => (g a).bind h := by
  induction p with
  | ret a => rfl
  | halt e => rfl
  | atom f k ih => simp only [bind]; congr 1; funext w; exact ih w

/-- The program has come to an end, normally or not. -/
def Final : Prog W E α → Prop
  | .atom _ _ => False
  | _ => True

/-- No path of the program has more than `n` atomic actions, and `ρ` allows each. -/
inductive Within (ρ : W → W → Prop) : Nat → Prog W E α → Prop where
  | ret {n a} : Within ρ n (.ret a)
  | halt {n e} : Within ρ n (.halt e)
  | atom {n f k} : (∀ w, ρ w (f w)) → (∀ w, Within ρ n (k w)) → Within ρ (n + 1) (.atom f k)

section Within

variable {ρ : W → W → Prop} {n m : Nat}

theorem Within.mono {p : Prog W E α} (h : Within ρ n p) (hnm : n ≤ m) : Within ρ m p := by
  induction h generalizing m with
  | ret => exact .ret
  | halt => exact .halt
  | @atom n f k hf _ ih =>
    obtain ⟨m', rfl⟩ := Nat.exists_eq_add_of_le' hnm
    rw [← Nat.add_assoc]
    exact .atom hf fun w => ih w (Nat.le_add_left ..)

theorem Within.weaken {ρ' : W → W → Prop} {p : Prog W E α} (h : Within ρ n p)
    (hρ : ∀ w v, ρ w v → ρ' w v) : Within ρ' n p := by
  induction h with
  | ret => exact .ret
  | halt => exact .halt
  | atom hf _ ih => exact .atom (fun w => hρ _ _ (hf w)) ih

theorem Within.bind {p : Prog W E α} {g : α → Prog W E β} (hp : Within ρ n p)
    (hg : ∀ a, Within ρ m (g a)) : Within ρ (n + m) (p >>= g) := by
  induction hp with
  | ret => exact (hg _).mono (Nat.le_add_left ..)
  | halt => exact .halt
  | @atom n f k hf _ ih =>
    rw [Nat.add_right_comm]
    exact .atom hf fun w => ih w

theorem Within.act {g : W → α × W} (hg : ∀ w, ρ w (g w).2) : Within (E := E) ρ 1 (act g) :=
  .atom hg fun _ => .ret

theorem Within.get (hρ : ∀ w, ρ w w) (g : W → α) : Within (E := E) ρ 1 (get g) :=
  .atom hρ fun _ => .ret

theorem Within.modify {f : W → W} (hf : ∀ w, ρ w (f w)) : Within (E := E) ρ 1 (modify f) :=
  .atom hf fun _ => .ret

end Within

end Prog

open Prog

/-! ### Interleavings with the environment -/

variable {R : W → W → Prop} {I : W → Prop}

/-- Every configuration a program can reach while the environment moves by `R`. -/
inductive Steps (R : W → W → Prop) (w : W) (p : Prog W E α) : W → Prog W E α → Prop where
  | refl : Steps R w p w p
  | env {v q u} : Steps R w p v q → R v u → Steps R w p u q
  | act {v f k} : Steps R w p v (.atom f k) → Steps R w p (f v) (k v)

/-- The worlds the environment alone can reach. -/
abbrev Env (R : W → W → Prop) : W → W → Prop := Relation.ReflTransGen R

theorem Steps.trans {w v u : W} {p q r : Prog W E α} (h : Steps R w p v q) (h' : Steps R v q u r) :
    Steps R w p u r := by
  induction h' with
  | refl => exact h
  | env _ hr ih => exact .env ih hr
  | act _ ih => exact .act ih

theorem Steps.of_env {w v : W} {p : Prog W E α} (h : Env R w v) : Steps R w p v p := by
  induction h with
  | refl => exact .refl
  | tail _ hr ih => exact .env ih hr

/-- A longer program runs its first part as that part does on its own. -/
theorem Steps.bind {w v : W} {p q : Prog W E α} (h : Steps R w p v q) (g : α → Prog W E β) :
    Steps R w (p.bind g) v (q.bind g) := by
  induction h with
  | refl => exact .refl
  | env _ hr ih => exact .env ih hr
  | act _ ih => exact .act ih

/-- The program acts first. -/
theorem Steps.first {w v : W} {f : W → W} {k : W → Prog W E α} {q : Prog W E α}
    (h : Steps R (f w) (k w) v q) : Steps R w (.atom f k) v q := (Steps.act .refl).trans h

theorem Steps.act_bind {w v : W} {g : W → β × W} {k : β → Prog W E α} {q : Prog W E α}
    (h : Steps R (g w).2 (k (g w).1) v q) : Steps R w (Prog.act g >>= k) v q := .first h

theorem Steps.get_bind {w v : W} {g : W → β} {k : β → Prog W E α} {q : Prog W E α}
    (h : Steps R w (k (g w)) v q) : Steps R w (Prog.get g >>= k) v q := .first h

theorem Steps.modify_bind {w v : W} {f : W → W} {k : Unit → Prog W E α} {q : Prog W E α}
    (h : Steps R (f w) (k ()) v q) : Steps R w (Prog.modify f >>= k) v q := .first h

/-- A first part that ends, and what follows. -/
theorem Steps.seq {w v u : W} {p : Prog W E α} {g : α → Prog W E β} {a : α} {q : Prog W E β}
    (h : Steps R w p v (.ret a)) (hg : Steps R v (g a) u q) : Steps R w (p >>= g) u q :=
  (h.bind g).trans hg

theorem steps_final {w v : W} {p q : Prog W E α} (hp : p.Final) (h : Steps R w p v q) :
    q = p ∧ Env R w v := by
  induction h with
  | refl => exact ⟨rfl, .refl⟩
  | env _ hr ih => exact ⟨ih.1, ih.2.tail hr⟩
  | act _ ih => rw [← ih.1] at hp; exact hp.elim

theorem steps_atom {w v : W} {f : W → W} {k : W → Prog W E α} {q : Prog W E α}
    (h : Steps R w (.atom f k) v q) :
    (q = .atom f k ∧ Env R w v) ∨ ∃ u, Env R w u ∧ Steps R (f u) (k u) v q := by
  induction h with
  | refl => exact .inl ⟨rfl, .refl⟩
  | env _ hr ih =>
    rcases ih with ⟨hq, he⟩ | ⟨u, hu, hs⟩
    · exact .inl ⟨hq, he.tail hr⟩
    · exact .inr ⟨u, hu, .env hs hr⟩
  | @act v' f' k' _ ih =>
    rcases ih with ⟨hq, he⟩ | ⟨u, hu, hs⟩
    · obtain ⟨rfl, rfl⟩ := Prog.atom.inj hq
      exact .inr ⟨v', he, .refl⟩
    · exact .inr ⟨u, hu, .act hs⟩

/-- A run of `p` then `g` is still inside `p`, or has left it with a value and runs `g`. -/
theorem steps_bind {w v : W} {p : Prog W E α} {g : α → Prog W E β} {q : Prog W E β}
    (h : Steps R w (p.bind g) v q) :
    (∃ p', Steps R w p v p' ∧ q = p'.bind g) ∨
      ∃ a u, Steps R w p u (.ret a) ∧ Steps R u (g a) v q := by
  induction h with
  | refl => exact .inl ⟨p, .refl, rfl⟩
  | env _ hr ih =>
    rcases ih with ⟨p', hs, hq⟩ | ⟨a, u, hs, hg⟩
    · exact .inl ⟨p', .env hs hr, hq⟩
    · exact .inr ⟨a, u, hs, .env hg hr⟩
  | @act v' f k _ ih =>
    rcases ih with ⟨p', hs, hq⟩ | ⟨a, u, hs, hg⟩
    · cases p' with
      | ret a => exact .inr ⟨a, v', hs, by rw [Prog.bind] at hq; rw [← hq]; exact .act .refl⟩
      | halt e => cases hq
      | atom f' k' =>
        obtain ⟨rfl, rfl⟩ := Prog.atom.inj hq
        exact .inl ⟨k' v', .act hs, rfl⟩
    · exact .inr ⟨a, u, hs, .act hg⟩

/-! ### Weakest preconditions over all interleavings -/

/-- What a configuration owes: `Q` on a normal end, `X` on an abnormal one. -/
def Outcome (Q : α → W → Prop) (X : E → W → Prop) : Prog W E α → W → Prop
  | .ret a, w => Q a w
  | .halt e, w => X e w
  | .atom _ _, _ => True

/-- In every interleaving from `w`, `I` holds throughout and every end meets `Q` or `X`. -/
def Wp (R : W → W → Prop) (I : W → Prop) (p : Prog W E α) (Q : α → W → Prop) (X : E → W → Prop)
    (w : W) : Prop :=
  ∀ v q, Steps R w p v q → I v ∧ Outcome Q X q v

variable {Q Q' : α → W → Prop} {X X' : E → W → Prop} {w : W}

theorem wp_ret {a : α} (h : ∀ v, Env R w v → I v ∧ Q a v) : Wp R I (.ret a) Q X w := by
  intro v q hs
  obtain ⟨rfl, he⟩ := steps_final (p := _) (by trivial) hs
  exact h v he

theorem wp_halt {e : E} (h : ∀ v, Env R w v → I v ∧ X e v) :
    Wp R I (.halt e : Prog W E α) Q X w := by
  intro v q hs
  obtain ⟨rfl, he⟩ := steps_final (p := _) (by trivial) hs
  exact h v he

theorem wp_atom {f : W → W} {k : W → Prog W E α}
    (h : ∀ v, Env R w v → I v ∧ Wp R I (k v) Q X (f v)) : Wp R I (.atom f k) Q X w := by
  intro v q hs
  rcases steps_atom hs with ⟨rfl, he⟩ | ⟨u, he, hs'⟩
  · exact ⟨(h v he).1, trivial⟩
  · exact (h u he).2 v q hs'

theorem wp_bind {p : Prog W E α} {g : α → Prog W E β} {Q : β → W → Prop}
    (h : Wp R I p (fun a v => Wp R I (g a) Q X v) X w) : Wp R I (p >>= g) Q X w := by
  intro v q hs
  rcases steps_bind hs with ⟨p', hp, rfl⟩ | ⟨a, u, hp, hg⟩
  · obtain ⟨hI, ho⟩ := h v p' hp
    cases p' with
    | ret a => exact ⟨hI, (ho v (g a) .refl).2⟩
    | halt e => exact ⟨hI, ho⟩
    | atom f k => exact ⟨hI, trivial⟩
  · exact (h u (.ret a) hp).2 v q hg

theorem wp_mono {p : Prog W E α} {I' : W → Prop} (h : Wp R I p Q X w) (hI : ∀ v, I v → I' v)
    (hQ : ∀ a v, I v → Q a v → Q' a v) (hX : ∀ e v, I v → X e v → X' e v) :
    Wp R I' p Q' X' w := by
  intro v q hs
  obtain ⟨hi, ho⟩ := h v q hs
  refine ⟨hI v hi, ?_⟩
  cases q with
  | ret a => exact hQ a v hi ho
  | halt e => exact hX e v hi ho
  | atom f k => trivial

/-- A first part with a specification of its own. -/
theorem wp_seq {p : Prog W E α} {g : α → Prog W E β} {Q : α → W → Prop} {Q' : β → W → Prop}
    (hp : Wp R I p Q X w) (hX : ∀ e v, X e v → X' e v) (hg : ∀ a v, Q a v → Wp R I (g a) Q' X' v) :
    Wp R I (p >>= g) Q' X' w :=
  wp_bind (wp_mono hp (fun _ h => h) (fun a v _ hQ => hg a v hQ) fun e v _ h => hX e v h)

/-- The run that led to an end. -/
theorem wp_traced {p : Prog W E α} (h : Wp R I p Q X w) :
    Wp R I p (fun a v => Q a v ∧ Steps R w p v (.ret a)) X w := by
  intro v q hs
  obtain ⟨hi, ho⟩ := h v q hs
  refine ⟨hi, ?_⟩
  cases q with
  | ret a => exact ⟨ho, hs⟩
  | halt e => exact ho
  | atom f k => trivial

theorem wp_and {p : Prog W E α} {I' : W → Prop} (h : Wp R I p Q X w) (h' : Wp R I' p Q' X' w) :
    Wp R (fun v => I v ∧ I' v) p (fun a v => Q a v ∧ Q' a v) (fun e v => X e v ∧ X' e v) w := by
  intro v q hs
  obtain ⟨hi, ho⟩ := h v q hs
  obtain ⟨hi', ho'⟩ := h' v q hs
  refine ⟨⟨hi, hi'⟩, ?_⟩
  cases q with
  | ret a => exact ⟨ho, ho'⟩
  | halt e => exact ⟨ho, ho'⟩
  | atom f k => trivial

/-- `I` holds at every moment, whatever comes of the program. -/
abbrev Throughout (R : W → W → Prop) (I : W → Prop) (p : Prog W E α) (w : W) : Prop :=
  Wp R I p (fun _ _ => True) (fun _ _ => True) w

theorem Throughout.mono {I' : W → Prop} {p : Prog W E α} (h : Throughout R I p w) (hI : ∀ v, I v → I' v) :
    Throughout R I' p w := wp_mono h hI (fun _ _ _ h => h) fun _ _ _ h => h

/-- The moments after its end belong to it too. -/
theorem Throughout.tail {p : Prog W E α} (h : Throughout R I p w) :
    Wp R (fun _ => True) p (fun _ v => ∀ u, Env R v u → I u) (fun _ _ => True) w := by
  intro v q hs
  refine ⟨trivial, ?_⟩
  cases q with
  | ret a => exact fun u he => (h u _ (hs.trans (.of_env he))).1
  | halt e => trivial
  | atom f k => trivial

/-- MOMENT RULE: the moments of the first part, and, from the worlds it ends in, those of what follows. -/
theorem Throughout.seq {p : Prog W E α} {g : α → Prog W E β} {Q : α → W → Prop} (hp : Throughout R I p w)
    (hend : Wp R (fun _ => True) p Q X w) (hg : ∀ a v, Q a v → Throughout R I (g a) v) :
    Throughout R I (p >>= g) w :=
  wp_bind (wp_mono (wp_and hp hend) (fun _ h => h.1) (fun a v _ h => hg a v h.2) fun _ _ _ _ => trivial)

/-- The environment has no move from `w`. -/
def Quiet (R : W → W → Prop) (w : W) : Prop := ∀ v, ¬ R w v

theorem Quiet.env {v : W} (h : Quiet R w) (he : Env R w v) : v = w := by
  induction he with
  | refl => rfl
  | tail _ hr ih => exact absurd (ih ▸ hr) (h _)

theorem wp_ret_quiet {a : α} (hq : Quiet R w) (hI : I w) (h : Q a w) : Wp R I (.ret a) Q X w :=
  wp_ret fun v he => by rw [hq.env he]; exact ⟨hI, h⟩

theorem wp_atom_quiet {f : W → W} {k : W → Prog W E α} (hq : Quiet R w) (hI : I w)
    (h : Wp R I (k w) Q X (f w)) : Wp R I (.atom f k) Q X w :=
  wp_atom fun v he => by rw [hq.env he]; exact ⟨hI, h⟩

/-! ### Undisturbed runs -/

/-- The run nothing disturbs: how the program ends, and the world it leaves. -/
def Prog.exec : Prog W E α → W → Except E α × W
  | .ret a, w => (.ok a, w)
  | .halt e, w => (.error e, w)
  | .atom f k, w => (k w).exec (f w)

@[simp] theorem exec_ret (a : α) (w : W) : (.ret a : Prog W E α).exec w = (.ok a, w) := rfl

@[simp] theorem exec_pure (a : α) (w : W) : (pure a : Prog W E α).exec w = (.ok a, w) := rfl

@[simp] theorem exec_get_bind (g : W → β) (k : β → Prog W E α) (w : W) :
    (get g >>= k).exec w = (k (g w)).exec w := rfl

@[simp] theorem exec_modify (f : W → W) (w : W) :
    (modify f : Prog W E Unit).exec w = (.ok (), f w) := rfl

@[simp] theorem exec_modify_bind (f : W → W) (k : Unit → Prog W E α) (w : W) :
    (modify f >>= k).exec w = (k ()).exec (f w) := rfl

@[simp] theorem exec_act_bind (g : W → β × W) (k : β → Prog W E α) (w : W) :
    (act g >>= k).exec w = (k (g w).1).exec (g w).2 := rfl

theorem exec_bind_ok {p : Prog W E α} {a : α} {w v : W} (h : p.exec w = (.ok a, v))
    (g : α → Prog W E β) : (p >>= g).exec w = (g a).exec v := by
  induction p generalizing w with
  | ret b => cases h; rfl
  | halt e => cases h
  | atom f k ih => exact ih w h

/-! ### One action and what follows -/

theorem wp_get_bind {g : W → β} {k : β → Prog W E α}
    (h : ∀ v, Env R w v → I v ∧ Wp R I (k (g v)) Q X v) : Wp R I (get g >>= k) Q X w :=
  wp_atom (f := id) (k := fun w => k (g w)) h

theorem wp_modify_bind {f : W → W} {k : Unit → Prog W E α}
    (h : ∀ v, Env R w v → I v ∧ Wp R I (k ()) Q X (f v)) : Wp R I (modify f >>= k) Q X w :=
  wp_atom (f := f) (k := fun _ => k ()) h

/-- The environment keeps `P`. -/
def Stable (R : W → W → Prop) (P : W → Prop) : Prop := ∀ w v, P w → R w v → P v

theorem Stable.env {P : W → Prop} {v : W} (h : Stable R P) (hP : P w) (he : Env R w v) : P v := by
  induction he with
  | refl => exact hP
  | tail _ hr ih => exact h _ _ ih hr

/-! ### Assertions both sides keep -/

/-- Every action of the program keeps `P`, and it never ends abnormally. -/
inductive Prog.Keeps (P : W → Prop) : Prog W E α → Prop where
  | ret {a} : Keeps P (.ret a)
  | atom {f k} : (∀ w, P w → P (f w)) → (∀ w, Keeps P (k w)) → Keeps P (.atom f k)

namespace Prog.Keeps

variable {P : W → Prop} {p : Prog W E α}

theorem bind {g : α → Prog W E β} (hp : p.Keeps P) (hg : ∀ a, (g a).Keeps P) :
    (p >>= g).Keeps P := by
  induction hp with
  | ret => exact hg _
  | atom hf _ ih => exact .atom hf ih

theorem get (g : W → α) : (Prog.get g : Prog W E α).Keeps P := .atom (fun _ h => h) fun _ => .ret

theorem modify {f : W → W} (hf : ∀ w, P w → P (f w)) : (Prog.modify f : Prog W E Unit).Keeps P :=
  .atom hf fun _ => .ret

theorem act {g : W → α × W} (hg : ∀ w, P w → P (g w).2) : (Prog.act g : Prog W E α).Keeps P :=
  .atom hg fun _ => .ret

end Prog.Keeps

/-- Every action of the program is one `ρ` allows, and it never ends abnormally. -/
inductive Prog.Does (ρ : W → W → Prop) : Prog W E α → Prop where
  | ret {a} : Does ρ (.ret a)
  | atom {f k} : (∀ w, ρ w (f w)) → (∀ w, Does ρ (k w)) → Does ρ (.atom f k)

namespace Prog.Does

variable {ρ ρ' : W → W → Prop} {p : Prog W E α}

theorem bind {g : α → Prog W E β} (hp : p.Does ρ) (hg : ∀ a, (g a).Does ρ) : (p >>= g).Does ρ := by
  induction hp with
  | ret => exact hg _
  | atom hf _ ih => exact .atom hf ih

theorem get (hρ : ∀ w, ρ w w) (g : W → α) : (Prog.get g : Prog W E α).Does ρ :=
  .atom hρ fun _ => .ret

theorem modify {f : W → W} (hf : ∀ w, ρ w (f w)) : (Prog.modify f : Prog W E Unit).Does ρ :=
  .atom hf fun _ => .ret

theorem act {g : W → α × W} (hg : ∀ w, ρ w (g w).2) : (Prog.act g : Prog W E α).Does ρ :=
  .atom hg fun _ => .ret

theorem mono (hp : p.Does ρ) (h : ∀ w v, ρ w v → ρ' w v) : p.Does ρ' := by
  induction hp with
  | ret => exact .ret
  | atom hf _ ih => exact .atom (fun w => h _ _ (hf w)) ih

theorem keeps {P : W → Prop} (hp : p.Does ρ) (h : ∀ w v, ρ w v → P w → P v) : p.Keeps P := by
  induction hp with
  | ret => exact .ret
  | atom hf _ ih => exact .atom (fun w hw => h _ _ (hf w) hw) ih

end Prog.Does

/-- Every action of the program is one `ρ` allows, no path has more than `n`, and none ends abnormally. -/
inductive Prog.Takes (ρ : W → W → Prop) : Nat → Prog W E α → Prop where
  | ret {n a} : Takes ρ n (.ret a)
  | atom {n f k} : (∀ w, ρ w (f w)) → (∀ w, Takes ρ n (k w)) → Takes ρ (n + 1) (.atom f k)

namespace Prog.Takes

variable {ρ : W → W → Prop} {n m : Nat} {p : Prog W E α}

theorem mono (hp : p.Takes ρ n) (hnm : n ≤ m) : p.Takes ρ m := by
  induction hp generalizing m with
  | ret => exact .ret
  | @atom n f k hf _ ih =>
    obtain ⟨m', rfl⟩ := Nat.exists_eq_add_of_le' hnm
    rw [← Nat.add_assoc]
    exact .atom hf fun w => ih w (Nat.le_add_left ..)

theorem bind {g : α → Prog W E β} (hp : p.Takes ρ n) (hg : ∀ a, (g a).Takes ρ m) :
    (p >>= g).Takes ρ (n + m) := by
  induction hp with
  | ret => exact (hg _).mono (Nat.le_add_left ..)
  | @atom n f k hf _ ih =>
    rw [Nat.add_right_comm]
    exact .atom hf ih

theorem act {g : W → α × W} (hg : ∀ w, ρ w (g w).2) : (Prog.act g : Prog W E α).Takes ρ 1 :=
  .atom hg fun _ => .ret

theorem modify {f : W → W} (hf : ∀ w, ρ w (f w)) : (Prog.modify f : Prog W E Unit).Takes ρ 1 :=
  .atom hf fun _ => .ret

/-- What follows a read may be long in a way that depends on what is read. -/
theorem get_bind {g : W → α} {k : α → Prog W E β} (hρ : ∀ w, ρ w w) (hk : ∀ w, (k (g w)).Takes ρ n) :
    (Prog.get g >>= k).Takes ρ (n + 1) := .atom hρ hk

theorem within (hp : p.Takes ρ n) : p.Within ρ n := by
  induction hp with
  | ret => exact .ret
  | atom hf _ ih => exact .atom hf ih

theorem does (hp : p.Takes ρ n) : p.Does ρ := by
  induction hp with
  | ret => exact .ret
  | atom hf _ ih => exact .atom hf ih

end Prog.Takes

/-- Where `P` holds every action of the program is one `ρ` allows, and keeps `P`; a result is as `Q`
    says. -/
inductive Prog.Acts (P : W → Prop) (ρ : W → W → Prop) (Q : α → Prop) : Prog W E α → Prop where
  | ret {a} : Q a → Acts P ρ Q (.ret a)
  | halt {e} : Acts P ρ Q (.halt e)
  | atom {f k} : (∀ w, P w → ρ w (f w) ∧ P (f w)) → (∀ w, P w → Acts P ρ Q (k w)) →
      Acts P ρ Q (.atom f k)

namespace Prog.Acts

variable {P : W → Prop} {ρ : W → W → Prop} {Q : α → Prop} {Q' : β → Prop} {p q : Prog W E α}

theorem bind {g : α → Prog W E β} (hp : p.Acts P ρ Q) (hg : ∀ a, Q a → (g a).Acts P ρ Q') :
    (p >>= g).Acts P ρ Q' := by
  induction hp with
  | ret hQ => exact hg _ hQ
  | halt => exact .halt
  | atom hf _ ih => exact .atom hf ih

theorem get {g : W → α} (hρ : ∀ w, P w → ρ w w) (hQ : ∀ w, P w → Q (g w)) :
    (Prog.get g : Prog W E α).Acts P ρ Q :=
  .atom (fun w h => ⟨hρ w h, h⟩) fun w h => .ret (hQ w h)

theorem modify {f : W → W} {Q : Unit → Prop} (hf : ∀ w, P w → ρ w (f w) ∧ P (f w)) (hQ : Q ()) :
    (Prog.modify f : Prog W E Unit).Acts P ρ Q :=
  .atom hf fun _ _ => .ret hQ

theorem mono {Q'' : α → Prop} (hp : p.Acts P ρ Q) (h : ∀ a, Q a → Q'' a) : p.Acts P ρ Q'' := by
  induction hp with
  | ret hQ => exact .ret (h _ hQ)
  | halt => exact .halt
  | atom hf _ ih => exact .atom hf ih

theorem of_does {ρ' : W → W → Prop} (hp : p.Does ρ')
    (h : ∀ w v, ρ' w v → P w → ρ w v ∧ P v) : p.Acts P ρ fun _ => True := by
  induction hp with
  | ret => exact .ret trivial
  | atom hf _ ih => exact .atom (fun w hw => h _ _ (hf w) hw) fun w _ => ih w

/-- Under a stronger assertion that the actions keep. -/
theorem under {P' : W → Prop} (hp : p.Acts P ρ Q) (hP : ∀ w, P' w → P w)
    (h : ∀ w v, ρ w v → P' w → P' v) : p.Acts P' ρ Q := by
  induction hp with
  | ret hQ => exact .ret hQ
  | halt => exact .halt
  | atom hf _ ih =>
    exact .atom (fun w hw => ⟨(hf w (hP w hw)).1, h _ _ (hf w (hP w hw)).1 hw⟩) fun w hw => ih w (hP w hw)

/-- Wherever the program has come to, `P` holds and what is left acts the same way. -/
theorem steps {w v : W} (hR : ∀ w v, P w → R w v → P v) (hp : p.Acts P ρ Q) (hw : P w)
    (h : Steps R w p v q) : P v ∧ q.Acts P ρ Q := by
  induction h with
  | refl => exact ⟨hw, hp⟩
  | env _ hr ih => exact ⟨hR _ _ ih.1 hr, ih.2⟩
  | act _ ih =>
    cases ih.2 with
    | atom hf hk => exact ⟨(hf _ ih.1).2, hk _ ih.1⟩

end Prog.Acts

theorem wp_keeps {P : W → Prop} {p : Prog W E α} (hR : Stable R P) (hp : p.Keeps P) (h : P w) :
    Wp R P p (fun _ => P) (fun _ _ => False) w := by
  induction hp generalizing w with
  | ret => exact wp_ret fun v he => ⟨hR.env h he, hR.env h he⟩
  | atom hf _ ih => exact wp_atom fun v he => ⟨hR.env h he, ih v (hf v (hR.env h he))⟩

/-- Where every world on the way is quiet, the undisturbed run is the only one. -/
theorem wp_exec {P : W → Prop} {p : Prog W E α} (hP : ∀ v, P v → Quiet R v) (hp : p.Keeps P)
    (h : P w) : Wp R P p (fun a v => p.exec w = (.ok a, v)) (fun _ _ => False) w := by
  induction hp generalizing w with
  | ret => exact wp_ret_quiet (hP w h) h rfl
  | atom hf _ ih => exact wp_atom_quiet (hP w h) h (ih w (hf w h))

/-- As `wp_exec`, for programs whose actions keep `P` as long as it holds. -/
theorem wp_exec_acts {P : W → Prop} {ρ : W → W → Prop} {Q : α → Prop} {p : Prog W E α}
    (hP : ∀ v, P v → Quiet R v) (hp : p.Acts P ρ Q) (h : P w) :
    Wp R P p (fun a v => p.exec w = (.ok a, v)) (fun e v => p.exec w = (.error e, v)) w := by
  induction hp generalizing w with
  | ret => exact wp_ret_quiet (hP w h) h rfl
  | halt => exact wp_halt fun v he => by rw [(hP w h).env he]; exact ⟨h, rfl⟩
  | atom hf _ ih => exact wp_atom_quiet (hP w h) h (ih w h (hf w h).2)

theorem wp_acts {P : W → Prop} {ρ : W → W → Prop} {Q : α → Prop} {p : Prog W E α} (hR : Stable R P)
    (hp : p.Acts P ρ Q) (h : P w) : Wp R P p (fun _ => P) (fun _ => P) w := by
  intro v q hs
  have hv := (hp.steps hR h hs).1
  cases q with
  | ret a => exact ⟨hv, hv⟩
  | halt e => exact ⟨hv, hv⟩
  | atom f k => exact ⟨hv, trivial⟩

/-- Where the invariant lets the environment do no more than another, what holds under that one does. -/
theorem wp_narrow {R' : W → W → Prop} {p : Prog W E α} (h : Wp R' I p Q X w)
    (hR : ∀ v u, I v → R v u → R' v u) : Wp R I p Q X w := by
  have hsteps : ∀ {v q}, Steps R w p v q → Steps R' w p v q := by
    intro v q hs
    induction hs with
    | refl => exact .refl
    | env _ hr ih => exact .env ih (hR _ _ (h _ _ ih).1 hr)
    | act _ ih => exact .act ih
  exact fun v q hs => h v q (hsteps hs)

/-- What the environment and every allowed action keep, holds throughout, abnormal ends included. -/
theorem wp_within {P : W → Prop} {ρ : W → W → Prop} {n : Nat} {p : Prog W E α} (hR : Stable R P)
    (hρ : ∀ w v, ρ w v → P w → P v) (hp : p.Within ρ n) (h : P w) :
    Wp R P p (fun _ => P) (fun _ => P) w := by
  induction hp generalizing w with
  | ret => exact wp_ret fun v he => ⟨hR.env h he, hR.env h he⟩
  | halt => exact wp_halt fun v he => ⟨hR.env h he, hR.env h he⟩
  | atom hf _ ih =>
    exact wp_atom fun v he => ⟨hR.env h he, ih v (hρ _ _ (hf v) (hR.env h he))⟩

/-- An action begun under an assertion the environment keeps. -/
theorem wp_atom_stable {P : W → Prop} {f : W → W} {k : W → Prog W E α} (hR : Stable R P) (hP : P w)
    (hI : ∀ v, P v → I v) (h : ∀ v, P v → Wp R I (k v) Q X (f v)) : Wp R I (.atom f k) Q X w :=
  wp_atom fun v he => ⟨hI v (hR.env hP he), h v (hR.env hP he)⟩

theorem Steps.mono {R' : W → W → Prop} {p q : Prog W E α} {v : W} (hR : ∀ w v, R w v → R' w v)
    (h : Steps R w p v q) : Steps R' w p v q := by
  induction h with
  | refl => exact .refl
  | env _ hr ih => exact .env ih (hR _ _ hr)
  | act _ ih => exact .act ih

/-! ### Programs on an abstract state -/

/-- Begun in a world that shows the abstract state `x`, the program returns as `Φ` says or fails as `X`
    says, in a world that shows the state spoken of there. -/
def Leads {S : Type} (R : W → W → Prop) (Shows : S → W → Prop) (x : S) (p : Prog W E α)
    (Φ : α → S → Prop) (X : E → S → Prop) : Prop :=
  ∀ w, Shows x w → Wp R (fun _ => True) p (fun a v => ∃ y, Φ a y ∧ Shows y v)
    (fun e v => ∃ y, X e y ∧ Shows y v) w

/-- The program does not fail. -/
abbrev Drives {S : Type} (R : W → W → Prop) (Shows : S → W → Prop) (x : S) (p : Prog W E α)
    (Φ : α → S → Prop) : Prop := Leads R Shows x p Φ fun _ _ => False

section Leads

variable {S : Type} {Shows : S → W → Prop} {x y : S} {p : Prog W E α} {k : α → Prog W E β}
  {Φ Φ' : α → S → Prop} {Ψ : β → S → Prop} {X X' : E → S → Prop}

theorem Leads.mono (hp : Leads R Shows x p Φ X) (h : ∀ a y, Φ a y → Φ' a y) (hX : ∀ e y, X e y → X' e y) :
    Leads R Shows x p Φ' X' := fun w hw =>
  wp_mono (hp w hw) (fun _ h => h) (fun a _ _ ⟨y, hΦ, hy⟩ => ⟨y, h a y hΦ, hy⟩)
    fun e _ _ ⟨y, he, hy⟩ => ⟨y, hX e y he, hy⟩

theorem Leads.seq (hp : Leads R Shows x p Φ X) (hX : ∀ e y, X e y → X' e y)
    (hk : ∀ a y, Φ a y → Leads R Shows y (k a) Ψ X') : Leads R Shows x (p >>= k) Ψ X' := fun w hw =>
  wp_seq (hp w hw) (fun e _ ⟨y, he, hy⟩ => ⟨y, hX e y he, hy⟩) fun a _ ⟨y, hΦ, hy⟩ => hk a y hΦ _ hy

theorem leads_ret (hS : ∀ x, Stable R (Shows x)) {a : α} (h : Φ a x) :
    Leads R Shows x (.ret a : Prog W E α) Φ X :=
  fun _ hw => wp_ret fun _ he => ⟨trivial, x, h, (hS x).env hw he⟩

theorem leads_halt (hS : ∀ x, Stable R (Shows x)) {e : E} (h : X e x) :
    Leads R Shows x (.halt e : Prog W E α) Φ X :=
  fun _ hw => wp_halt fun _ he => ⟨trivial, x, h, (hS x).env hw he⟩

theorem leads_atom (hS : ∀ x, Stable R (Shows x)) {f : W → W} {k : W → Prog W E α}
    (h : ∀ w, Shows x w → ∃ y, Shows y (f w) ∧ Leads R Shows y (k w) Φ X) :
    Leads R Shows x (.atom f k) Φ X := fun _ hw =>
  wp_atom_stable (hS x) hw (fun _ _ => trivial) fun v hv => by
    obtain ⟨y, hy, hk⟩ := h v hv
    exact hk (f v) hy

/-- A first part that leaves the abstract state. -/
theorem Leads.after {q : Prog W E β} {k : β → Prog W E α} (hS : ∀ x, Stable R (Shows x))
    (hq : q.Keeps (Shows x)) (hk : ∀ b, Leads R Shows x (k b) Φ X) : Leads R Shows x (q >>= k) Φ X :=
  fun _ hw => wp_seq (wp_mono (wp_keeps (hS x) hq hw) (fun _ _ => trivial) (fun _ _ _ h => h)
    fun _ _ _ h => h) (fun _ _ h => h.elim) fun b _ hb => hk b _ hb

end Leads

section Drives

variable {S : Type} {Shows : S → W → Prop} {x y : S} {p : Prog W E α} {k : α → Prog W E β}
  {Φ Φ' : α → S → Prop} {Ψ : β → S → Prop}

theorem Drives.wp (hp : Drives R Shows x p Φ) {w : W} (hw : Shows x w) :
    Wp R (fun _ => True) p (fun a v => ∃ y, Φ a y ∧ Shows y v) (fun _ _ => False) w :=
  wp_mono (hp w hw) (fun _ h => h) (fun _ _ _ h => h) fun _ _ _ ⟨_, h, _⟩ => h

theorem Drives.bind (hp : Drives R Shows x p Φ) (hk : ∀ a y, Φ a y → Drives R Shows y (k a) Ψ) :
    Drives R Shows x (p >>= k) Ψ := Leads.seq hp (fun _ _ h => h) hk

theorem Drives.mono (hp : Drives R Shows x p Φ) (h : ∀ a y, Φ a y → Φ' a y) : Drives R Shows x p Φ' :=
  Leads.mono hp h fun _ _ h => h

/-- A first part that leaves the abstract state. -/
theorem Drives.pass (hp : Drives R Shows x p fun _ y => y = x)
    (hk : ∀ a, Drives R Shows x (k a) Ψ) : Drives R Shows x (p >>= k) Ψ :=
  hp.bind fun a _ hy => hy ▸ hk a

theorem drives_ret (hS : ∀ x, Stable R (Shows x)) {a : α} (h : Φ a x) :
    Drives R Shows x (.ret a : Prog W E α) Φ := leads_ret hS h

theorem drives_atom (hS : ∀ x, Stable R (Shows x)) {f : W → W} {k : W → Prog W E α}
    (h : ∀ w, Shows x w → ∃ y, Shows y (f w) ∧ Drives R Shows y (k w) Φ) :
    Drives R Shows x (.atom f k) Φ := leads_atom hS h

theorem drives_keeps (hS : ∀ x, Stable R (Shows x)) (hp : p.Keeps (Shows x)) :
    Drives R Shows x p fun _ y => y = x := fun _ hw =>
  wp_mono (wp_keeps (hS x) hp hw) (fun _ _ => trivial) (fun _ _ _ h => ⟨x, rfl, h⟩) fun _ _ _ h => h.elim

theorem drives_modify (hS : ∀ x, Stable R (Shows x)) {f : W → W}
    (hf : ∀ w, Shows x w → Shows y (f w)) :
    Drives R Shows x (.modify f : Prog W E Unit) fun _ z => z = y :=
  drives_atom hS fun w hw => ⟨y, hf w hw, drives_ret hS rfl⟩

/-- A read finds some world that shows the abstract state. -/
theorem drives_get (hS : ∀ x, Stable R (Shows x)) (g : W → α) :
    Drives R Shows x (.get g : Prog W E α) fun a z => z = x ∧ ∃ w, Shows x w ∧ a = g w :=
  drives_atom hS fun w hw => ⟨x, hw, drives_ret hS ⟨rfl, w, hw, rfl⟩⟩

end Drives

/-! ### Executable runs -/

/-- The value of a program that has ended normally. -/
def Prog.value? : Prog W E α → Option α
  | .ret a => some a
  | _ => none

theorem Prog.eq_ret_of_value? {p : Prog W E α} {a : α} (h : p.value? = some a) : p = .ret a := by
  cases p with
  | ret b => rw [Option.some.inj h]
  | halt e => cases h
  | atom f k => cases h

/-- Follow a schedule: `none` lets the program act, `some m` lets the environment move. -/
def follow (move : M → W → Option W) : List (Option M) → W → Prog W E α → W × Prog W E α
  | [], w, p => (w, p)
  | none :: s, w, .atom f k => follow move s (f w) (k w)
  | none :: s, w, p => follow move s w p
  | some m :: s, w, p => follow move s ((move m w).getD w) p

/-- The environment given by a partial function of moves. -/
def Moves (move : M → W → Option W) : W → W → Prop := fun w v => ∃ m, move m w = some v

theorem follow_steps (move : M → W → Option W) :
    ∀ (s : List (Option M)) (w : W) (p : Prog W E α),
      Steps (Moves move) w p (follow move s w p).1 (follow move s w p).2
  | [], w, p => .refl
  | none :: s, w, .atom f k => (Steps.act .refl).trans (follow_steps move s (f w) (k w))
  | none :: s, w, .ret a => follow_steps move s w (.ret a)
  | none :: s, w, .halt e => follow_steps move s w (.halt e)
  | some m :: s, w, p => by
    rw [follow]
    cases hm : move m w with
    | none => exact follow_steps move s w p
    | some v => exact (Steps.env .refl ⟨m, hm⟩).trans (follow_steps move s v p)

/-- A followed schedule that ends with a value, as a run of any environment allowing its moves. -/
theorem follow_ret {move : M → W → Option W} {s : List (Option M)} {p : Prog W E α} {a : α}
    (h : (follow move s w p).2.value? = some a) (hR : ∀ w v, Moves move w v → R w v) :
    Steps R w p (follow move s w p).1 (.ret a) := by
  have := (follow_steps move s w p).mono hR
  rwa [Prog.eq_ret_of_value? h] at this

end Resume
