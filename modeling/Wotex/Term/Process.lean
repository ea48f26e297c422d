import Mathlib.Data.List.Basic

/-!
# Processes that handle one message after the other

A process takes a state and a message to what it sends and a next state, until it stops or leaves by an
exception; either way its last callback runs, after an exception on the state before the message.

* `run_rule`: an invariant of the running process that every message keeps, or turns into the condition
  on a process that ended, holds after every list of messages.
* `run_append`: the messages of a list are handled behind those before it.
-/

namespace Wotex.Process

variable {σ ι ω : Type}

/-- How the handling of a message ends. -/
inductive Next (σ : Type) where
  | go (s : σ) | stop (s : σ) | crash

/-- What the handling of a message sends, and how it ends. -/
structure Step (σ ω : Type) where
  outputs : List ω
  next : Next σ

/-- Something is sent first. -/
def Step.prepend (outputs : List ω) (t : Step σ ω) : Step σ ω := ⟨outputs ++ t.outputs, t.next⟩

/-- What holds of the outputs and the state of a step, and of the outputs where it leaves by an
exception. -/
def Step.Ends (t : Step σ ω) (Q : List ω → σ → Prop) (C : List ω → Prop) : Prop :=
  match t.next with
  | .go s => Q t.outputs s
  | .stop s => Q t.outputs s
  | .crash => C t.outputs

variable {C : List ω → Prop}

theorem Step.Ends.imp {t : Step σ ω} {Q Q' : List ω → σ → Prop} {C' : List ω → Prop} (h : t.Ends Q C)
    (hQ : ∀ o s, Q o s → Q' o s) (hC : ∀ o, C o → C' o) : t.Ends Q' C' := by
  unfold Step.Ends at h ⊢
  cases hnext : t.next with
  | go s | stop s => exact hQ _ s (by rwa [hnext] at h)
  | crash => exact hC _ (by rwa [hnext] at h)

theorem Step.ends_prepend {t : Step σ ω} {o : List ω} {Q : List ω → σ → Prop} :
    (t.prepend o).Ends Q C ↔ t.Ends (fun o' s => Q (o ++ o') s) (fun o' => C (o ++ o')) := Iff.rfl

/-- A process: what it does with a message, and its last callback behind a message. -/
structure Behaviour (σ ι ω : Type) where
  handle : σ → ι → Step σ ω
  terminate : σ → ι → List ω

variable (p : Behaviour σ ι ω)

/-- What a process sends for a list of messages, and its state if it still runs. -/
def run : σ → List ι → List ω × Option σ
  | s, [] => ([], some s)
  | s, i :: rest =>
    match (p.handle s i).next with
    | .go s' => ((p.handle s i).outputs ++ (run s' rest).1, (run s' rest).2)
    | .stop s' => ((p.handle s i).outputs ++ p.terminate s' i, none)
    | .crash => ((p.handle s i).outputs ++ p.terminate s i, none)

variable (I : List ω → σ → Prop) (J : List ω → Prop) (o : List ω)

/-- The state of a process is invariant, or it ended and its outputs meet a condition. -/
def Holds : Option σ → Prop
  | some s => I o s
  | none => J o

/-- A message leads from outputs `o` and a state to the invariant `I` or to the condition `J`. -/
def Leads (s : σ) (i : ι) : Prop :=
  match (p.handle s i).next with
  | .go s' => I (o ++ (p.handle s i).outputs) s'
  | .stop s' => J (o ++ (p.handle s i).outputs ++ p.terminate s' i)
  | .crash => J (o ++ (p.handle s i).outputs ++ p.terminate s i)

variable {p}

/-- A condition `Q` on the end of a step leads on where it gives the invariant, and where the last callback
turns it into the condition on a process that ended, also behind an exception. -/
theorem leads_of_ends {I Q : List ω → σ → Prop} {J : List ω → Prop} {o : List ω} {s : σ} {i : ι}
    (h : (p.handle s i).Ends (fun o' s' => Q (o ++ o') s') C) (hgo : ∀ o s, Q o s → I o s)
    (hstop : ∀ o s, Q o s → J (o ++ p.terminate s i))
    (hcrash : ∀ o', C o' → J (o ++ o' ++ p.terminate s i)) : Leads p I J o s i := by
  unfold Leads
  unfold Step.Ends at h
  cases hnext : (p.handle s i).next with
  | go s' => exact hgo _ s' (by rwa [hnext] at h)
  | stop s' => exact hstop _ s' (by rwa [hnext] at h)
  | crash => exact hcrash _ (by rwa [hnext] at h)

/-- **The induction over the messages of a process.** The invariant may speak about the messages still to
come. -/
theorem run_rule {I : List ι → List ω → σ → Prop} {J : List ω → Prop}
    (step : ∀ i rest o s, I (i :: rest) o s → Leads p (I rest) J o s i) :
    ∀ {inputs : List ι} {o : List ω} {s : σ}, I inputs o s →
      Holds (I []) J (o ++ (run p s inputs).1) (run p s inputs).2
  | [], o, s, h => by
    rw [run, List.append_nil]
    exact h
  | i :: rest, o, s, h => by
    have hlead := step i rest o s h
    unfold Leads at hlead
    rw [run]
    cases hnext : (p.handle s i).next with
    | go s' =>
      rw [hnext] at hlead
      have hrest := run_rule step hlead
      rwa [List.append_assoc] at hrest
    | stop s' | crash =>
      rw [hnext] at hlead
      dsimp only at hlead ⊢
      rwa [List.append_assoc] at hlead

/-- A process that ended handles nothing more; a running one goes on from its state. -/
theorem run_append (xs ys : List ι) (s : σ) : run p s (xs ++ ys) = match (run p s xs).2 with
      | some s' => ((run p s xs).1 ++ (run p s' ys).1, (run p s' ys).2)
      | none => run p s xs := by
  induction xs generalizing s with
  | nil => rfl
  | cons i xs ih =>
    rw [List.cons_append, run, run]
    cases (p.handle s i).next with
    | go s' =>
      dsimp only
      rw [ih s']
      cases hend : (run p s' xs).2 with
      | none => simp [hend]
      | some s'' => simp
    | stop s' => rfl
    | crash => rfl

end Wotex.Process
