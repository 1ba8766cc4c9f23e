import Mathlib.Data.List.Basic

set_option relaxedAutoImplicit false
set_option autoImplicit false

/-!
# Procedures with state and exceptions

A procedure of an imperative language with exceptions: it returns a value or raises, and leaves a
state either way. What was done to the state before an exception stays done.

## Main definitions

* `Proc` — procedures, with their monad, `Proc.raise` and `Proc.tryExcept`.
* `Proc.forEach` — a loop over a list.
* `Proc.Triple` — a precondition on the state, and a postcondition on the outcome and the state.
* `Proc.Keeps` — an invariant of the state, kept however the procedure ends.

## Main results

* `Proc.Triple.bind`, `Proc.Triple.tryExcept` — the rules of sequencing and of handling.
* `Proc.bind_eq_ok`, `Proc.forEach_cons_eq_ok` — what a normal return says about the parts.
-/

namespace Uvk5

/-- A procedure on states `σ` that returns an `α` or raises an `ε`. -/
def Proc (σ ε α : Type) : Type := σ → Except ε α × σ

namespace Proc

variable {σ ε α β : Type}

instance : Monad (Proc σ ε) where
  pure a := fun s => (.ok a, s)
  bind p f := fun s =>
    match p s with
    | (.ok a, s) => f a s
    | (.error e, s) => (.error e, s)

/-- Raise an exception. -/
def raise (e : ε) : Proc σ ε α := fun s => (.error e, s)

/-- Return the value, or raise if there is none. -/
def getOrRaise (e : ε) : Option α → Proc σ ε α
  | some a => pure a
  | none => raise e

/-- Return or raise as a function did. -/
def ofExcept (r : Except ε α) : Proc σ ε α := fun s => (r, s)

/-- Run `p`, and `handler` if `p` raises one of the exceptions caught. -/
def tryExcept (catches : ε → Bool) (p handler : Proc σ ε α) : Proc σ ε α := fun s =>
  match p s with
  | (.ok a, s) => (.ok a, s)
  | (.error e, s) => if catches e then handler s else (.error e, s)

/-- The state. -/
def get : Proc σ ε σ := fun s => (.ok s, s)

/-- Change the state. -/
def modify (f : σ → σ) : Proc σ ε Unit := fun s => (.ok (), f s)

/-- Run `p` if the condition holds. -/
def onlyIf (b : Bool) (p : Proc σ ε Unit) : Proc σ ε Unit := if b then p else pure ()

/-- Run `p`, and `h` on the exception if it raises one; `h` may raise another kind. -/
def handle {ε' : Type} (p : Proc σ ε α) (h : ε → Proc σ ε' α) : Proc σ ε' α := fun s =>
  match p s with
  | (.ok a, s) => (.ok a, s)
  | (.error e, s) => h e s

/-- Raise another exception instead. -/
def mapError {ε' : Type} (f : ε → ε') (p : Proc σ ε α) : Proc σ ε' α := p.handle fun e => raise (f e)

/-- A procedure on a part of the state. -/
def zoom {τ : Type} (get : σ → τ) (set : σ → τ → σ) (p : Proc τ ε α) : Proc σ ε α := fun s =>
  ((p (get s)).1, set s (p (get s)).2)

/-- A procedure on a value of its own, which is lost if it raises. -/
def onLocal {τ : Type} (p : Proc τ ε α) (t : τ) : Proc σ ε (α × τ) := fun s =>
  match p t with
  | (.ok a, t) => (.ok (a, t), s)
  | (.error e, _) => (.error e, s)

/-- Run `f` on each element. -/
def forEach (f : β → Proc σ ε Unit) : List β → Proc σ ε Unit
  | [] => pure ()
  | b :: bs => do
    f b
    forEach f bs

/-! ## Normal returns -/

/-- To get the state and go on is to go on with the state. -/
lemma get_bind (f : σ → Proc σ ε α) (s : σ) : ((get : Proc σ ε σ) >>= f) s = f s s := rfl

/-- A program that goes on after one that returns. -/
lemma bind_of_ok {p : Proc σ ε α} {f : α → Proc σ ε β} {s s' : σ} {a : α} (h : p s = (.ok a, s')) :
    (p >>= f) s = f a s' := by
  change (match p s with
    | (.ok a, s) => f a s
    | (.error e, s) => (.error e, s)) = f a s'
  rw [h]

/-- A result that is known, put into a program. -/
lemma ofExcept_eq {r r' : Except ε α} {s : σ} (h : r = r') : ofExcept r s = (r', s) := by
  rw [ofExcept, h]

/-- A program that would go on after one that raises. -/
lemma bind_of_error {p : Proc σ ε α} {f : α → Proc σ ε β} {s s' : σ} {e : ε}
    (h : p s = (.error e, s')) : (p >>= f) s = (.error e, s') := by
  change (match p s with
    | (.ok a, s) => f a s
    | (.error e, s) => (.error e, s)) = (.error e, s')
  rw [h]

/-- Two programs one after the other return if both do. -/
lemma bind_eq_ok {p : Proc σ ε α} {f : α → Proc σ ε β} {s s' : σ} {b : β} :
    (p >>= f) s = (.ok b, s') ↔ ∃ a s₁, p s = (.ok a, s₁) ∧ f a s₁ = (.ok b, s') := by
  change (match p s with
    | (.ok a, s) => f a s
    | (.error e, s) => (.error e, s)) = (.ok b, s') ↔ _
  cases hp : p s with
  | mk r s₁ =>
    cases r with
    | ok a => simp
    | error e => simp

/-- Two programs one after the other raise if the first does, or the second after it. -/
lemma bind_eq_error {p : Proc σ ε α} {f : α → Proc σ ε β} {s s' : σ} {e : ε} :
    (p >>= f) s = (.error e, s') ↔
      p s = (.error e, s') ∨ ∃ a s₁, p s = (.ok a, s₁) ∧ f a s₁ = (.error e, s') := by
  change (match p s with
    | (.ok a, s) => f a s
    | (.error e, s) => (.error e, s)) = (.error e, s') ↔ _
  cases hp : p s with
  | mk r s₁ =>
    cases r with
    | ok a => simp
    | error e => simp

section Handle

variable {ε' : Type} {p : Proc σ ε α} {s s' : σ}

/-- A handler is not asked when nothing is raised. -/
lemma handle_of_ok {h : ε → Proc σ ε' α} {a : α} (hp : p s = (.ok a, s')) :
    p.handle h s = (.ok a, s') := by
  rw [handle, hp]

/-- A handler goes on from the state in which the error was raised. -/
lemma handle_of_error {h : ε → Proc σ ε' α} {e : ε} (hp : p s = (.error e, s')) :
    p.handle h s = h e s' := by
  rw [handle, hp]

/-- Renaming errors leaves a program that returns. -/
lemma mapError_of_ok {f : ε → ε'} {a : α} (hp : p s = (.ok a, s')) :
    p.mapError f s = (.ok a, s') :=
  handle_of_ok hp

/-- Renaming errors renames the one that is raised, and leaves the state. -/
lemma mapError_of_error {f : ε → ε'} {e : ε} (hp : p s = (.error e, s')) :
    p.mapError f s = (.error (f e), s') :=
  handle_of_error hp

/-- Which exception is raised does not matter to the state. -/
lemma mapError_snd (f : ε → ε') : (p.mapError f s).2 = (p s).2 := by
  cases hp : p s with
  | mk r s₁ =>
    cases r with
    | ok a => rw [mapError_of_ok hp]
    | error e => rw [mapError_of_error hp]

end Handle

section OnLocal

variable {τ : Type} {p : Proc τ ε α} {t : τ} {s : σ}

/-- A program on a local value returns it with its result, and leaves the state. -/
lemma onLocal_of_ok {t' : τ} {a : α} (hp : p t = (.ok a, t')) :
    onLocal p t s = (.ok (a, t'), s) := by
  rw [onLocal, hp]

/-- A program on a local value that raises leaves the state. -/
lemma onLocal_of_error {e : ε} (hp : (p t).1 = .error e) : onLocal p t s = (.error e, s) := by
  rw [onLocal]
  cases h : p t with
  | mk r t' =>
    rw [h] at hp
    obtain rfl : r = .error e := hp
    rfl

end OnLocal

/-- A value that is demanded is there, if nothing is raised. -/
lemma getOrRaise_eq_ok {e : ε} {o : Option α} {s s' : σ} {a : α} :
    getOrRaise e o s = (.ok a, s') ↔ o = some a ∧ s = s' := by
  cases o with
  | none => simp [getOrRaise, raise]
  | some b =>
    change (Except.ok b, s) = (.ok a, s') ↔ _
    simp

/-- A loop returns if its first turn and the rest of it do. -/
lemma forEach_cons_eq_ok {f : β → Proc σ ε Unit} {b : β} {bs : List β} {s s' : σ} :
    forEach f (b :: bs) s = (.ok (), s') ↔
      f b s = (.ok (), (f b s).2) ∧ forEach f bs (f b s).2 = (.ok (), s') := by
  rw [forEach, bind_eq_ok]
  constructor
  · rintro ⟨⟨⟩, s₁, hf, hrest⟩
    rw [hf]
    exact ⟨rfl, hrest⟩
  · rintro ⟨hf, hrest⟩
    exact ⟨(), _, hf, hrest⟩

/-! ## Pre- and postconditions -/

/-- From a state with `P`, the procedure ends with `Q` of its outcome and its state. -/
def Triple (P : σ → Prop) (p : Proc σ ε α) (Q : Except ε α → σ → Prop) : Prop :=
  ∀ s, P s → Q (p s).1 (p s).2

/-- `I` is an invariant of the procedure, however it ends. -/
def Keeps (I : σ → Prop) (p : Proc σ ε α) : Prop := Triple I p fun _ s => I s

/-- A stronger precondition and a weaker postcondition. -/
lemma Triple.mono {P P' : σ → Prop} {p : Proc σ ε α} {Q Q' : Except ε α → σ → Prop}
    (h : Triple P p Q) (hP : ∀ s, P' s → P s) (hQ : ∀ r s, Q r s → Q' r s) : Triple P' p Q' :=
  fun s hs => hQ _ _ (h s (hP s hs))

/-- A value that is returned. -/
lemma Triple.pure {P : σ → Prop} {Q : Except ε α → σ → Prop} {a : α} (h : ∀ s, P s → Q (.ok a) s) :
    Triple P (pure a : Proc σ ε α) Q := h

/-- **Sequencing**: what holds between the parts, and what an exception of the first passes on. -/
theorem Triple.bind {P : σ → Prop} {R : Except ε α → σ → Prop} {Q : Except ε β → σ → Prop}
    {p : Proc σ ε α} {f : α → Proc σ ε β} (hp : Triple P p R)
    (hf : ∀ a, Triple (R (.ok a)) (f a) Q) (he : ∀ e s, R (.error e) s → Q (.error e) s) :
    Triple P (p >>= f) Q := by
  intro s hs
  have hmid := hp s hs
  have hbind : (p >>= f) s = match p s with
      | (.ok a, s) => f a s
      | (.error e, s) => (.error e, s) := rfl
  rw [hbind]
  cases hps : p s with
  | mk r s₁ =>
    rw [hps] at hmid
    cases r with
    | ok a => exact hf a s₁ hmid
    | error e => exact he e s₁ hmid

/-- **Handling**: the handler runs from where the exception left the state. -/
theorem Triple.tryExcept {P : σ → Prop} {R Q : Except ε α → σ → Prop} {catches : ε → Bool}
    {p handler : Proc σ ε α} (hp : Triple P p R) (hok : ∀ a s, R (.ok a) s → Q (.ok a) s)
    (hhandler : ∀ e, Triple (R (.error e)) handler Q)
    (he : ∀ e s, R (.error e) s → Q (.error e) s) :
    Triple P (tryExcept catches p handler) Q := by
  intro s hs
  have hmid := hp s hs
  rw [Proc.tryExcept]
  cases hps : p s with
  | mk r s₁ =>
    rw [hps] at hmid
    cases r with
    | ok a => exact hok a s₁ hmid
    | error e =>
      simp only
      split
      · exact hhandler e s₁ hmid
      · exact he e s₁ hmid

/-- Sequencing, where the outcome does not matter. -/
lemma Triple.seq {P R Q : σ → Prop} {p : Proc σ ε α} {f : α → Proc σ ε β}
    (hp : Triple P p fun _ => R) (hf : ∀ a, Triple R (f a) fun _ => Q) (hRQ : ∀ s, R s → Q s) :
    Triple P (p >>= f) fun _ => Q :=
  Triple.bind hp hf fun _ s => hRQ s

/-- What holds of the state however a procedure ends holds whatever it raises. -/
lemma Triple.mapError {ε' : Type} {P Q : σ → Prop} {p : Proc σ ε α} (f : ε → ε')
    (hp : Triple P p fun _ => Q) : Triple P (p.mapError f) fun _ => Q := by
  intro s hs
  rw [mapError_snd]
  exact hp s hs

section Keeps

variable {I : σ → Prop}

/-- An invariant holds in the state a run ends in. -/
lemma Keeps.run {p : Proc σ ε α} (hp : Keeps I p) {s s' : σ} {r : Except ε α} (hrun : p s = (r, s'))
    (hs : I s) : I s' := by
  have hkept := hp s hs
  rwa [hrun] at hkept

/-- Returning a value keeps everything. -/
lemma Keeps.pure {a : α} : Keeps I (pure a : Proc σ ε α) := fun _ hs => hs

/-- Raising an error keeps everything. -/
lemma Keeps.raise {e : ε} : Keeps I (raise e : Proc σ ε α) := fun _ hs => hs

/-- Looking at the state keeps everything. -/
lemma Keeps.get : Keeps I (get : Proc σ ε σ) := fun _ hs => hs

/-- Demanding a value keeps everything. -/
lemma Keeps.getOrRaise {e : ε} {a : Option α} : Keeps I (getOrRaise e a : Proc σ ε α) := by
  cases a with
  | none => exact Keeps.raise
  | some a => exact Keeps.pure

/-- An invariant holds whatever is raised. -/
lemma Keeps.mapError {ε' : Type} {p : Proc σ ε α} (f : ε → ε') (hp : Keeps I p) :
    Keeps I (p.mapError f) :=
  Triple.mapError f hp

/-- A procedure on a value of its own leaves the state alone. -/
lemma Keeps.onLocal {τ : Type} {p : Proc τ ε α} {t : τ} :
    Keeps I (onLocal p t : Proc σ ε (α × τ)) := by
  intro s hs
  rw [Proc.onLocal]
  cases p t with
  | mk r t' =>
    cases r with
    | ok a => exact hs
    | error e => exact hs

/-- Two programs that keep something keep it one after the other. -/
lemma Keeps.bind {p : Proc σ ε α} {f : α → Proc σ ε β} (hp : Keeps I p) (hf : ∀ a, Keeps I (f a)) :
    Keeps I (p >>= f) :=
  Triple.bind hp hf fun _ _ h => h

/-- A program and its handler that keep something keep it together. -/
lemma Keeps.tryExcept {catches : ε → Bool} {p handler : Proc σ ε α} (hp : Keeps I p)
    (hhandler : Keeps I handler) : Keeps I (tryExcept catches p handler) :=
  Triple.tryExcept hp (fun _ _ h => h) (fun _ => hhandler) fun _ _ h => h

/-- What follows a value that is there may use where it comes from. -/
lemma Keeps.getOrRaise_bind {e : ε} {a : Option α} {f : α → Proc σ ε β}
    (hf : ∀ v, a = some v → Keeps I (f v)) : Keeps I (Proc.getOrRaise e a >>= f) := by
  cases a with
  | none => exact Keeps.raise
  | some v => exact hf v rfl

/-- A loop keeps what each of its turns keeps. -/
lemma Keeps.forEach {f : β → Proc σ ε Unit} {bs : List β} (hf : ∀ b ∈ bs, Keeps I (f b)) :
    Keeps I (forEach f bs) := by
  induction bs with
  | nil => exact Keeps.pure
  | cons b bs ih =>
    exact (hf b (List.mem_cons_self ..)).bind fun _ =>
      ih fun b' hb' => hf b' (List.mem_cons_of_mem _ hb')

end Keeps

end Proc

end Uvk5
