import Mathlib.Tactic

/-!
# Programs over calls

A program that asks the operating system for its next step is a tree: it returns a value, exits with
a status, or makes a call and goes on with the answer. What the system may answer, and what the call
does to its state, is a relation. `Reaches` are the runs, up to any point of them.

`Meets` is the weakest precondition of a program: a condition on the state of every call it makes,
one for every exit and one for every value it returns. It is computed along the program, with one
rule for a sequence (`meets_bind`), and holds at every point of a run (`Meets.of_reaches`).

`Strict` says that the program ends with a status once a call has failed, whatever is answered
later; a run that has seen a failure is then on its way out (`Strict.aborts`).
-/

set_option autoImplicit false

namespace IpSentinel.Foundation

universe u v

/-- A program with the calls `C`, each with its type of answers. -/
inductive Program (C : Type u) (A : C → Type u) (α : Type u) where
  | ret (a : α)
  | exit (status : Nat)
  | call (c : C) (next : A c → Program C A α)

namespace Program

variable {C : Type u} {A : C → Type u} {α β : Type u}

/-- One program after the other. -/
def bind : Program C A α → (α → Program C A β) → Program C A β
  | .ret a, f => f a
  | .exit status, _ => .exit status
  | .call c next, f => .call c fun a => (next a).bind f

instance instMonad : Monad (Program C A) where
  pure := .ret
  bind := bind

/-- The program that makes a call and returns its answer. -/
def ask (c : C) : Program C A (A c) := .call c .ret

/-! ## Runs -/

section Runs

variable {σ : Type v}

/-- From the state `s` on, the program gets to `q` in the state `t`, with the calls and answers
`tr`. -/
inductive Reaches (W : σ → (c : C) → A c → σ → Prop) :
    Program C A α → σ → List (Σ c, A c) → Program C A α → σ → Prop
  | refl (p : Program C A α) (s : σ) : Reaches W p s [] p s
  | call {c : C} {next : A c → Program C A α} {s s' t : σ} {a : A c} {tr : List (Σ c, A c)}
      {q : Program C A α} (h : W s c a s') (hrest : Reaches W (next a) s' tr q t) :
      Reaches W (.call c next) s (⟨c, a⟩ :: tr) q t

/-- Every call is made in a state with `G`, every exit in one with `E`, and every value is returned
in one with `Q`. -/
def Meets (W : σ → (c : C) → A c → σ → Prop) (G : C → σ → Prop) (E : Nat → σ → Prop)
    (Q : α → σ → Prop) : Program C A α → σ → Prop
  | .ret a, s => Q a s
  | .exit status, s => E status s
  | .call c next, s => G c s ∧ ∀ a s', W s c a s' → Meets W G E Q (next a) s'

variable {W : σ → (c : C) → A c → σ → Prop} {G : C → σ → Prop} {E : Nat → σ → Prop}

/-- The rule for a sequence. -/
theorem meets_bind {Q : β → σ → Prop} {p : Program C A α} {f : α → Program C A β} {s : σ} :
    (p.bind f).Meets W G E Q s ↔ p.Meets W G E (fun a t => (f a).Meets W G E Q t) s := by
  induction p generalizing s with
  | ret a => rfl
  | exit status => rfl
  | call c next ih =>
    simp only [bind, Meets]
    exact and_congr_right fun _ => forall_congr' fun a => forall_congr' fun s' =>
      imp_congr_right fun _ => ih a

/-- The rule of consequence. -/
theorem Meets.mono {Q Q' : α → σ → Prop} {p : Program C A α} {s : σ} (h : p.Meets W G E Q s)
    (hQ : ∀ a t, Q a t → Q' a t) : p.Meets W G E Q' s := by
  induction p generalizing s with
  | ret a => exact hQ a s h
  | exit status => exact h
  | call c next ih => exact ⟨h.1, fun a s' hs' => ih a (h.2 a s' hs')⟩

/-- The rule for a sequence of a program with a known result. -/
theorem Meets.bind {Q : α → σ → Prop} {Q' : β → σ → Prop} {p : Program C A α}
    {f : α → Program C A β} {s : σ} (h : p.Meets W G E Q s)
    (hf : ∀ a t, Q a t → (f a).Meets W G E Q' t) : (p.bind f).Meets W G E Q' s :=
  meets_bind.2 (h.mono hf)

/-- The next call, or the exit, is made in a state with `G` or `E`. -/
def Allowed (G : C → σ → Prop) (E : Nat → σ → Prop) : Program C A α → σ → Prop
  | .ret _, _ => True
  | .exit status, s => E status s
  | .call c _, s => G c s

theorem Meets.allowed {Q : α → σ → Prop} {p : Program C A α} {s : σ} (h : p.Meets W G E Q s) :
    p.Allowed G E s := by
  cases p with
  | ret a => trivial
  | exit status => exact h
  | call c next => exact h.1

/-- What a program meets it meets from every point of a run on. -/
theorem Meets.of_reaches {Q : α → σ → Prop} {p q : Program C A α} {s t : σ}
    {tr : List (Σ c, A c)} (h : p.Meets W G E Q s) (hrun : Reaches W p s tr q t) :
    q.Meets W G E Q t := by
  induction hrun with
  | refl p s => exact h
  | call hstep hrest ih => exact ih (h.2 _ _ hstep)

/-- The run in which each call is answered by a function. -/
def runWith (answer : σ → (c : C) → A c × σ) :
    Program C A α → σ → List (Σ c, A c) × Program C A α × σ
  | .ret a, s => ([], .ret a, s)
  | .exit status, s => ([], .exit status, s)
  | .call c next, s =>
    let (a, s') := answer s c
    let (tr, q, t) := (next a).runWith answer s'
    (⟨c, a⟩ :: tr, q, t)

/-- It is a run, when the answers are those of the world. -/
theorem reaches_runWith {answer : σ → (c : C) → A c × σ}
    (h : ∀ s c, W s c (answer s c).1 (answer s c).2) (p : Program C A α) (s : σ) :
    Reaches W p s (p.runWith answer s).1 (p.runWith answer s).2.1 (p.runWith answer s).2.2 := by
  induction p generalizing s with
  | ret a => exact .refl _ s
  | exit status => exact .refl _ s
  | call c next ih => exact .call (h s c) (ih _ _)

end Runs

/-! ## Failing calls -/

/-- Whatever is answered, the program exits with the status. -/
def Aborts (status : Nat) : Program C A α → Prop
  | .ret _ => False
  | .exit n => n = status
  | .call _ next => ∀ a, (next a).Aborts status

theorem Aborts.bind {status : Nat} {p : Program C A α} (h : p.Aborts status)
    (f : α → Program C A β) : (p.bind f).Aborts status := by
  induction p with
  | ret a => exact absurd h id
  | exit n => exact h
  | call c next ih => exact fun a => ih a (h a)

/-- After a call that fails, the program exits with the status. -/
def Strict (Fails : (c : C) → A c → Prop) (status : Nat) : Program C A α → Prop
  | .ret _ => True
  | .exit _ => True
  | .call c next => ∀ a, (Fails c a → (next a).Aborts status) ∧ (next a).Strict Fails status

variable {Fails : (c : C) → A c → Prop} {status : Nat}

theorem Aborts.ne_ret {p : Program C A α} (h : p.Aborts status) (a : α) : p ≠ .ret a := by
  rintro rfl
  exact h

theorem Strict.bind {p : Program C A α} {f : α → Program C A β} (h : p.Strict Fails status)
    (hf : ∀ a, (f a).Strict Fails status) : (p.bind f).Strict Fails status := by
  induction p with
  | ret a => exact hf a
  | exit n => trivial
  | call c next ih =>
    exact fun a => ⟨fun hfail => ((h a).1 hfail).bind f, ih a (h a).2⟩

section Runs

variable {σ : Type v} {W : σ → (c : C) → A c → σ → Prop} {p q : Program C A α} {s t : σ}
variable {tr : List (Σ c, A c)}

/-- A program on its way to the exit stays there. -/
theorem Aborts.of_reaches (h : p.Aborts status) (hrun : Reaches W p s tr q t) :
    q.Aborts status := by
  induction hrun with
  | refl p s => exact h
  | call hstep hrest ih => exact ih (h _)

/-- A run with a failure goes on to the exit. -/
theorem Strict.aborts (h : p.Strict Fails status) (hrun : Reaches W p s tr q t)
    (hfail : ∃ e ∈ tr, Fails e.1 e.2) : q.Aborts status := by
  induction hrun with
  | refl p s =>
    obtain ⟨e, he, -⟩ := hfail
    cases he
  | call hstep hrest ih =>
    obtain ⟨e, he, hfails⟩ := hfail
    rcases List.mem_cons.1 he with rfl | he
    · exact ((h _).1 hfails).of_reaches hrest
    · exact ih (h _).2 ⟨e, he, hfails⟩

end Runs

end Program

end IpSentinel.Foundation
