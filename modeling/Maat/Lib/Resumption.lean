import Mathlib.Logic.Basic

/-!
# Resumption programs

A resumption program runs atomically on a shared state until it ends, throws, or asks the
outside a question and waits. While it waits the outside may change the shared state; the
answer comes back with whatever state it left. A contract that calls another contract and an
`async` function between two `await`s both have this shape.

`Sat` is the program logic: a rely–guarantee reading in which the **protocol** names what a
program must establish whenever it waits (`pause`, a relation between the state at which its
current segment started and the state it waits in) and what it may assume when it is resumed
(`rely`). Postconditions see the start of the last segment as well as the final state, which is
what makes the rule of sequencing an equivalence (`sat_bind`).
-/

namespace Resumption

variable {σ Q ε α β : Type} {A : Q → Type}

/-- What a program has come to: a result, an exception, or a question with the continuation
that takes the state found on return and the answer. -/
inductive Res (σ : Type) {Q : Type} (A : Q → Type) (ε α : Type) : Type where
  | ret (s : σ) (a : α)
  | throw (s : σ) (e : ε)
  | ask (s : σ) (q : Q) (k : σ → A q → Res σ A ε α)

/-- Run `f` on the result; exceptions and questions pass through. -/
def Res.bind : Res σ A ε α → (α → σ → Res σ A ε β) → Res σ A ε β
  | .ret s a, f => f a s
  | .throw s e, _ => .throw s e
  | .ask s q k, f => .ask s q fun s' x => (k s' x).bind f

/-- A program over the shared state `σ`. -/
abbrev Prog (σ : Type) {Q : Type} (A : Q → Type) (ε α : Type) : Type := σ → Res σ A ε α

namespace Prog

instance : Monad (Prog σ A ε) where
  pure a := fun s => .ret s a
  bind p f := fun s => (p s).bind f

/-- The shared state as it is now. -/
def read : Prog σ A ε σ := fun s => .ret s s

/-- Change the shared state. -/
def update (f : σ → σ) : Prog σ A ε Unit := fun s => .ret (f s) ()

/-- Throw. -/
def fail (e : ε) : Prog σ A ε α := fun s => .throw s e

/-- Throw `e` when `c` holds. -/
def failIf (c : Prop) [Decidable c] (e : ε) : Prog σ A ε Unit :=
  fun s => if c then .throw s e else .ret s ()

/-- Ask the outside and wait for its answer. -/
def ask (q : Q) : Prog σ A ε (A q) := fun s => .ask s q fun s' x => .ret s' x

@[simp] theorem pure_apply (a : α) (s : σ) : (pure a : Prog σ A ε α) s = .ret s a := rfl

@[simp] theorem bind_apply (p : Prog σ A ε α) (f : α → Prog σ A ε β) (s : σ) :
    (p >>= f) s = (p s).bind f := rfl

@[simp] theorem read_apply (s : σ) : (read : Prog σ A ε σ) s = .ret s s := rfl

@[simp] theorem update_apply (f : σ → σ) (s : σ) :
    (update f : Prog σ A ε Unit) s = .ret (f s) () := rfl

@[simp] theorem fail_apply (e : ε) (s : σ) : (fail e : Prog σ A ε α) s = .throw s e := rfl

@[simp] theorem failIf_apply (c : Prop) [Decidable c] (e : ε) (s : σ) :
    (failIf c e : Prog σ A ε Unit) s = if c then .throw s e else .ret s () := rfl

@[simp] theorem ask_apply (q : Q) (s : σ) :
    (ask q : Prog σ A ε (A q)) s = .ask s q fun s' x => .ret s' x := rfl

end Prog

namespace Res

@[simp] theorem bind_ret (s : σ) (a : α) (f : α → σ → Res σ A ε β) :
    (ret s a : Res σ A ε α).bind f = f a s := rfl

@[simp] theorem bind_throw (s : σ) (e : ε) (f : α → σ → Res σ A ε β) :
    (throw s e : Res σ A ε α).bind f = throw s e := rfl

@[simp] theorem bind_ask (s : σ) (q : Q) (k : σ → A q → Res σ A ε α) (f : α → σ → Res σ A ε β) :
    (ask s q k).bind f = ask s q fun s' x => (k s' x).bind f := rfl

/-- Ending in `pure` adds nothing. -/
@[simp] theorem bind_pure (r : Res σ A ε α) : (r.bind fun a s => ret s a) = r := by
  induction r with
  | ret s a => rfl
  | throw s e => rfl
  | ask s q k ih =>
    simp only [bind_ask, ask.injEq, heq_eq_eq, true_and]
    funext s' x
    exact ih s' x

/-- Sequencing is associative. -/
theorem bind_assoc {γ : Type} (r : Res σ A ε α) (f : α → σ → Res σ A ε β)
    (g : β → σ → Res σ A ε γ) :
    (r.bind f).bind g = r.bind fun a s => (f a s).bind g := by
  induction r with
  | ret s a => rfl
  | throw s e => rfl
  | ask s q k ih =>
    simp only [bind_ask, ask.injEq, heq_eq_eq, true_and]
    funext s' x
    exact ih s' x

end Res

/-! ## The logic -/

/-- What a waiting program owes and may assume. `pause s₀ s q`: a segment started in `s₀` may
wait in `s` on question `q`. `rely s q s' x`: having waited in `s` on `q`, the program may be
resumed in `s'` with answer `x`. -/
structure Protocol (σ : Type) {Q : Type} (A : Q → Type) where
  pause : σ → σ → Q → Prop
  rely : σ → (q : Q) → σ → A q → Prop

variable {P : Protocol σ A} {post post' : σ → σ → α → Prop} {exn exn' : σ → σ → ε → Prop}

/-- `Sat P post exn s₀ r`: from a segment started in `s₀`, `r` keeps the protocol whenever it
waits, and ends in `post` or throws in `exn`, both stated of the last segment's start and end. -/
def Sat (P : Protocol σ A) (post : σ → σ → α → Prop) (exn : σ → σ → ε → Prop) :
    σ → Res σ A ε α → Prop
  | s₀, .ret s a => post s₀ s a
  | s₀, .throw s e => exn s₀ s e
  | s₀, .ask s q k => P.pause s₀ s q ∧ ∀ s' x, P.rely s q s' x → Sat P post exn s' (k s' x)

@[simp] theorem sat_ret {s₀ s : σ} {a : α} : Sat P post exn s₀ (.ret s a) ↔ post s₀ s a := .rfl

@[simp] theorem sat_throw {s₀ s : σ} {e : ε} :
    Sat P post exn s₀ (.throw s e) ↔ exn s₀ s e := .rfl

@[simp] theorem sat_ask {s₀ s : σ} {q : Q} {k : σ → A q → Res σ A ε α} :
    Sat P post exn s₀ (.ask s q k) ↔
      P.pause s₀ s q ∧ ∀ s' x, P.rely s q s' x → Sat P post exn s' (k s' x) := .rfl

-- the rules below go through the three equations above, never through evaluation
attribute [irreducible] Sat

/-- The rule of sequencing. -/
theorem sat_bind {post : σ → σ → β → Prop} {s₀ : σ} {r : Res σ A ε α}
    {f : α → σ → Res σ A ε β} :
    Sat P post exn s₀ (r.bind f) ↔
      Sat P (fun s₁ s a => Sat P post exn s₁ (f a s)) exn s₀ r := by
  induction r generalizing s₀ with
  | ret s a => simp only [Res.bind_ret, sat_ret]
  | throw s e => simp only [Res.bind_throw, sat_throw]
  | ask s q k ih =>
    simp only [Res.bind_ask, sat_ask]
    exact and_congr_right fun _ => forall₃_congr fun s' x _ => ih s' x

/-- The rule of consequence. -/
theorem Sat.mono {s₀ : σ} {r : Res σ A ε α} (h : Sat P post exn s₀ r)
    (hpost : ∀ s₁ s a, post s₁ s a → post' s₁ s a) (hexn : ∀ s₁ s e, exn s₁ s e → exn' s₁ s e) :
    Sat P post' exn' s₀ r := by
  induction r generalizing s₀ with
  | ret s a => exact sat_ret.mpr (hpost _ _ _ (sat_ret.mp h))
  | throw s e => exact sat_throw.mpr (hexn _ _ _ (sat_throw.mp h))
  | ask s q k ih =>
    obtain ⟨hpause, hresume⟩ := sat_ask.mp h
    exact sat_ask.mpr ⟨hpause, fun s' x hr => ih s' x (hresume s' x hr)⟩

/-- A guard: the rest is run only where the guard did not throw. -/
theorem sat_failIf_bind {post : σ → σ → β → Prop} {c : Prop} [Decidable c] {e : ε} {s₀ s : σ}
    {f : Unit → σ → Res σ A ε β} :
    Sat P post exn s₀ ((Prog.failIf c e s).bind f) ↔
      (c → exn s₀ s e) ∧ (¬ c → Sat P post exn s₀ (f () s)) := by
  by_cases hc : c <;> simp [hc]

/-! ## Programs that keep a property of the state -/

/-- The protocol in which the property holds whenever a program waits and whenever it is
resumed. -/
def keeping (I : σ → Prop) : Protocol σ A where
  pause _ s _ := I s
  rely _ _ s' _ := I s'

/-- Run in a state with the property, the program keeps it at every wait and at its end. -/
def Keeps (I : σ → Prop) (p : Prog σ A ε α) : Prop :=
  ∀ s, I s → Sat (keeping I) (fun _ s _ => I s) (fun _ s _ => I s) s (p s)

/-- Where the segment started does not matter. -/
theorem Sat.start {I : σ → Prop} {s₀ s₁ : σ} {r : Res σ A ε α}
    (h : Sat (keeping I) (fun _ s _ => I s) (fun _ s _ => I s) s₀ r) :
    Sat (keeping I) (fun _ s _ => I s) (fun _ s _ => I s) s₁ r := by
  cases r with
  | ret s a => exact sat_ret.mpr (sat_ret.mp h)
  | throw s e => exact sat_throw.mpr (sat_throw.mp h)
  | ask s q k =>
    obtain ⟨hpause, hresume⟩ := sat_ask.mp h
    exact sat_ask.mpr ⟨hpause, hresume⟩

section Keeps

variable {I : σ → Prop} {p : Prog σ A ε α}

theorem keeps_pure (a : α) : Keeps I (pure a : Prog σ A ε α) := fun _ hs => sat_ret.mpr hs

theorem keeps_read : Keeps I (Prog.read : Prog σ A ε σ) := fun _ hs => sat_ret.mpr hs

theorem keeps_update {f : σ → σ} (hf : ∀ s, I s → I (f s)) :
    Keeps I (Prog.update f : Prog σ A ε Unit) := fun s hs => sat_ret.mpr (hf s hs)

theorem keeps_fail (e : ε) : Keeps I (Prog.fail e : Prog σ A ε α) := fun _ hs => sat_throw.mpr hs

theorem keeps_failIf (c : Prop) [Decidable c] (e : ε) :
    Keeps I (Prog.failIf c e : Prog σ A ε Unit) := by
  intro s hs
  rw [Prog.failIf_apply]
  split
  · exact sat_throw.mpr hs
  · exact sat_ret.mpr hs

theorem keeps_ask (q : Q) : Keeps I (Prog.ask q : Prog σ A ε (A q)) :=
  fun _ hs => sat_ask.mpr ⟨hs, fun _ _ hs' => sat_ret.mpr hs'⟩

theorem keeps_bind {f : α → Prog σ A ε β} (hp : Keeps I p) (hf : ∀ a, Keeps I (f a)) :
    Keeps I (p >>= f) := by
  intro s hs
  rw [Prog.bind_apply, sat_bind]
  refine (hp s hs).mono ?_ fun _ _ _ he => he
  intro s₁ s a hs
  exact (hf a s hs).start

/-- The state read has the property. -/
theorem keeps_read_bind {f : σ → Prog σ A ε α} (hf : ∀ s, I s → Keeps I (f s)) :
    Keeps I (Prog.read >>= f) := fun s hs => hf s hs s hs

/-- After a program that keeps `I`, any postcondition that its rest meets from `I`. -/
theorem Keeps.sat_bind {post : σ → β → Prop} {exn : σ → ε → Prop} {f : α → σ → Res σ A ε β}
    {s : σ} (hp : Keeps I p) (hs : I s) (hexn : ∀ s e, I s → exn s e)
    (hf : ∀ a s₁ s, I s → Sat (keeping I) (fun _ s b => post s b) (fun _ s e => exn s e) s₁ (f a s))
    (s₀ : σ) :
    Sat (keeping I) (fun _ s b => post s b) (fun _ s e => exn s e) s₀ ((p s).bind f) := by
  rw [Resumption.sat_bind]
  refine (hp s hs).start.mono ?_ fun _ s e he => hexn s e he
  intro s₁ s a hs
  exact hf a s₁ s hs

theorem keeps_ite {c : Prop} [Decidable c] {p' : Prog σ A ε α} (hp : Keeps I p)
    (hp' : Keeps I p') : Keeps I (if c then p else p') := by
  split
  · exact hp
  · exact hp'

end Keeps

end Resumption
