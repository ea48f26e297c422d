import Mathlib.Data.List.Basic

/-!
# What a call does: return, refuse or raise

The functions under `packages/wotex-routines` return `{:ok, value}`, `:ok` or `{:error, error}`,
and a `with` chain stops at the first refusal. A few calls can also leave by an exception
(`BadMapError` on a missing record, `ArithmeticError`, `MatchError`). `Outcome ε α` keeps the
three apart, so that "never raises" is a statement about the model.

`Outcome` is a monad, so a `with` chain is a `do` block. `require` is the boolean test of a chain
with the refusal of its `else` branch, `each` is `Validation.each/2`, and `Enum.reduce_while/3`
with an `{:ok, _}` accumulator is `List.foldlM`.
-/

namespace Wotex

/-- The result of a call. -/
inductive Outcome (ε α : Type) where
  /-- `{:ok, value}`, or `:ok` at `Unit`. -/
  | ok (a : α)
  /-- `{:error, error}`. -/
  | refuse (e : ε)
  /-- The call left by an exception. -/
  | raise
  deriving DecidableEq

namespace Outcome

variable {ε α β : Type}

/-- A `with` clause: go on with the value, or leave as the clause did. -/
def bind (x : Outcome ε α) (f : α → Outcome ε β) : Outcome ε β :=
  match x with
  | ok a => f a
  | refuse e => refuse e
  | raise => raise

instance : Monad (Outcome ε) where
  pure := ok
  bind := bind

@[simp] theorem pure_eq (a : α) : (pure a : Outcome ε α) = ok a := rfl

@[simp] theorem ok_bind (a : α) (f : α → Outcome ε β) : (ok a >>= f) = f a := rfl

@[simp] theorem refuse_bind (e : ε) (f : α → Outcome ε β) : (refuse e >>= f) = refuse e := rfl

@[simp] theorem raise_bind (f : α → Outcome ε β) : ((raise : Outcome ε α) >>= f) = raise := rfl

variable {x : Outcome ε α} {f : α → Outcome ε β}

@[simp] theorem bind_eq_ok {b : β} : (x >>= f) = ok b ↔ ∃ a, x = ok a ∧ f a = ok b := by
  cases x <;> simp

@[simp high] theorem bind_eq_ok_unit {x : Outcome ε Unit} {f : Unit → Outcome ε β} {b : β} :
    (x >>= f) = ok b ↔ x = ok () ∧ f () = ok b := by
  cases x <;> simp

@[simp] theorem exists_unit {p : Unit → Prop} : (∃ u, p u) ↔ p () :=
  ⟨fun ⟨_, h⟩ => h, fun h => ⟨(), h⟩⟩

@[simp] theorem bind_ok (x : Outcome ε α) : (x >>= fun a => ok a) = x := by
  cases x <;> rfl

@[simp] theorem bind_ok_unit (x : Outcome ε Unit) : (x >>= fun _ => ok ()) = x := by
  cases x <;> rfl

theorem bind_assoc {γ : Type} (x : Outcome ε α) (f : α → Outcome ε β) (g : β → Outcome ε γ) :
    (x >>= f >>= g) = x >>= fun a => f a >>= g := by
  cases x <;> rfl

theorem bind_eq_raise : (x >>= f) = raise ↔ x = raise ∨ ∃ a, x = ok a ∧ f a = raise := by
  cases x <;> simp

theorem bind_ne_raise (hx : x ≠ raise) (hf : ∀ a, x = ok a → f a ≠ raise) : (x >>= f) ≠ raise := by
  intro h
  rcases bind_eq_raise.mp h with h | ⟨a, ha, h⟩
  · exact hx h
  · exact hf a ha h

/-- The call refuses. -/
def Refuses (x : Outcome ε α) : Prop := ∃ e, x = refuse e

theorem Refuses.bind (h : x.Refuses) (f : α → Outcome ε β) : (x >>= f).Refuses := by
  obtain ⟨e, rfl⟩ := h
  exact ⟨e, rfl⟩

theorem bind_refuses (hx : x ≠ raise) (hf : ∀ a, x = ok a → (f a).Refuses) : (x >>= f).Refuses := by
  cases x with
  | ok a => exact hf a rfl
  | refuse e => exact ⟨e, rfl⟩
  | raise => exact absurd rfl hx

/-- A boolean test of a `with` chain and the refusal its `else` branch gives. -/
def require (b : Bool) (e : ε) : Outcome ε Unit :=
  if b then ok () else refuse e

variable {b : Bool} {e : ε}

@[simp] theorem require_eq_ok {u : Unit} : require b e = ok u ↔ b = true := by
  unfold require
  split <;> simp_all

@[simp] theorem require_ne_raise : require b e ≠ raise := by
  unfold require
  split <;> simp

theorem require_refuses (h : b = false) : (require b e).Refuses :=
  ⟨e, by rw [h]; rfl⟩

/-- `Validation.each/2`: the first refusal of `f` along the list. -/
def each (f : α → Outcome ε Unit) : List α → Outcome ε Unit
  | [] => ok ()
  | a :: as => do
    f a
    each f as

@[simp] theorem each_nil (f : α → Outcome ε Unit) : each f [] = ok () := rfl

theorem each_cons (f : α → Outcome ε Unit) (a : α) (as : List α) :
    each f (a :: as) = (f a >>= fun _ => each f as) := rfl

theorem each_eq_ok {f : α → Outcome ε Unit} {l : List α} {u : Unit} :
    each f l = ok u ↔ ∀ a ∈ l, f a = ok () := by
  induction l with
  | nil => simp
  | cons a as ih => rw [each_cons, bind_eq_ok_unit, ih, List.forall_mem_cons]

theorem each_ne_raise {f : α → Outcome ε Unit} {l : List α} (h : ∀ a, f a ≠ raise) : each f l ≠ raise := by
  induction l with
  | nil => nofun
  | cons a as ih => exact bind_ne_raise (h a) fun _ _ => ih

/-- The value of a call that returns, for `case` on `{:ok, value}` against anything else. -/
def toOption : Outcome ε α → Option α
  | ok a => some a
  | _ => none

@[simp] theorem toOption_eq_some {a : α} : x.toOption = some a ↔ x = ok a := by
  cases x <;> simp [toOption]

end Outcome

export Outcome (ok_bind bind_eq_ok bind_eq_ok_unit exists_unit bind_ne_raise require_eq_ok
  require_ne_raise)

end Wotex
