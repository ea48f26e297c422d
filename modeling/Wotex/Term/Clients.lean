import Mathlib.Logic.Function.Basic
import Wotex.Term.Outcome

/-!
# Clients of an atomic server

A call of a client is a `Program`: it returns, or it makes one request of a server and goes on with
the reply. A `Task` is a program that may also refuse or leave by an exception; its monad is the
`with` chain over such calls.

`Clients` interleaves the calls of any number of callers over one server. A request is served in one
step; between two requests of a call any other caller may be served. Every served request is an
`Event`, with the store it found.

* `Program.Follows guard last p`: each request of `p` satisfies `guard` after the exchange that came
  before it in the same call.
* `run_tracked` carries this from the calls to the events of any run: every event is what the server
  does, and the stores of consecutive events fit together (`Tracked`).
* `stretch_rule`: what each event of a stretch keeps is kept over the stretch.
-/

namespace Wotex

open List

variable {ρ σ α β ε κ S : Type}

/-- A call: it returns, or makes a request and goes on with the reply. -/
inductive Program (ρ σ α : Type) where
  | done (a : α)
  | call (request : ρ) (next : σ → Program ρ σ α)

namespace Program

/-- One call after another. -/
def bind (p : Program ρ σ α) (f : α → Program ρ σ β) : Program ρ σ β :=
  match p with
  | done a => f a
  | call request next => call request fun reply => (next reply).bind f

/-- The call run alone. -/
def exec (serve : S → ρ → σ × S) (s : S) : Program ρ σ α → α × S
  | done a => (a, s)
  | call request next => exec serve (serve s request).2 (next (serve s request).1)

/-- Each request satisfies `guard` after the exchange made before it, `last` at first. -/
def Follows (guard : Option (ρ × σ) → ρ → Prop) (last : Option (ρ × σ)) : Program ρ σ α → Prop
  | done _ => True
  | call request next => guard last request ∧ ∀ reply, Follows guard (some (request, reply)) (next reply)

theorem bind_assoc {γ : Type} (p : Program ρ σ α) (f : α → Program ρ σ β)
    (g : β → Program ρ σ γ) : (p.bind f).bind g = p.bind fun a => (f a).bind g := by
  induction p with
  | done a => rfl
  | call request next ih => simp [bind, ih]

end Program

/-- A call that returns, refuses or leaves by an exception. -/
def Task (ρ σ ε α : Type) := Program ρ σ (Outcome ε α)

namespace Task

/-- A `with` clause over a call. -/
def bind (t : Task ρ σ ε α) (f : α → Task ρ σ ε β) : Task ρ σ ε β :=
  Program.bind t fun
    | .ok a => f a
    | .refuse e => .done (.refuse e)
    | .raise => .done .raise

instance : Monad (Task ρ σ ε) where
  pure a := Program.done (.ok a)
  bind := bind

/-- A clause that makes no request. -/
def lift (x : Outcome ε α) : Task ρ σ ε α := Program.done x

/-- A request. -/
def ask (request : ρ) : Task ρ σ ε σ := Program.call request fun reply => .done (.ok reply)

/-- `Program.Follows` of a task. -/
def Follows (guard : Option (ρ × σ) → ρ → Prop) (last : Option (ρ × σ)) (t : Task ρ σ ε α) : Prop :=
  Program.Follows guard last t

/-- The task run alone. -/
def exec (serve : S → ρ → σ × S) (s : S) (t : Task ρ σ ε α) : Outcome ε α × S :=
  Program.exec serve s t

@[simp] theorem lift_ok_bind (a : α) (f : α → Task ρ σ ε β) :
    ((lift (.ok a) : Task ρ σ ε α) >>= f) = f a := rfl

@[simp] theorem lift_refuse_bind (e : ε) (f : α → Task ρ σ ε β) :
    ((lift (.refuse e) : Task ρ σ ε α) >>= f) = lift (.refuse e) := rfl

@[simp] theorem lift_raise_bind (f : α → Task ρ σ ε β) :
    ((lift .raise : Task ρ σ ε α) >>= f) = lift .raise := rfl

theorem bind_assoc {γ : Type} (t : Task ρ σ ε α) (f : α → Task ρ σ ε β) (g : β → Task ρ σ ε γ) :
    (t >>= f >>= g) = t >>= fun a => f a >>= g := by
  refine (Program.bind_assoc t _ _).trans ?_
  refine congrArg (Program.bind t) (funext fun x => ?_)
  cases x <;> rfl

variable {guard : Option (ρ × σ) → ρ → Prop} {last : Option (ρ × σ)}

@[simp] theorem follows_lift (x : Outcome ε α) : Follows guard last (lift x : Task ρ σ ε α) := by
  simp [Follows, lift, Program.Follows]

theorem follows_lift_bind {x : Outcome ε α} {f : α → Task ρ σ ε β}
    (h : ∀ a, x = .ok a → Follows guard last (f a)) : Follows guard last (lift x >>= f) := by
  cases x with
  | ok a => exact h a rfl
  | refuse e => exact follows_lift (.refuse e)
  | raise => exact follows_lift .raise

theorem follows_ask_bind {request : ρ} {f : σ → Task ρ σ ε β} (hg : guard last request)
    (h : ∀ reply, Follows guard (some (request, reply)) (f reply)) :
    Follows guard last (ask request >>= f) := ⟨hg, h⟩

theorem follows_bind_lift {t : Task ρ σ ε α} (g : α → Outcome ε β) (h : Follows guard last t) :
    Follows guard last (t >>= fun a => lift (g a)) := by
  have aux : ∀ (p : Program ρ σ (Outcome ε α)) (last : Option (ρ × σ)), p.Follows guard last →
      Program.Follows guard last (bind p fun a => lift (g a)) := by
    intro p
    induction p with
    | done x => exact fun last _ => by cases x <;> trivial
    | call request next ih => exact fun last h => ⟨h.1, fun reply => ih reply _ (h.2 reply)⟩
  exact aux t last h

variable (serve : S → ρ → σ × S) (s : S)

@[simp] theorem exec_lift (x : Outcome ε α) : exec serve s (lift x : Task ρ σ ε α) = (x, s) := rfl

theorem exec_ask_bind (request : ρ) (f : σ → Task ρ σ ε β) :
    exec serve s (ask request >>= f) = exec serve (serve s request).2 (f (serve s request).1) := rfl

theorem exec_lift_bind_eq_ok {serve : S → ρ → σ × S} {s s' : S} {x : Outcome ε α}
    {f : α → Task ρ σ ε β} {b : β} :
    exec serve s (lift x >>= f) = (.ok b, s') ↔ ∃ a, x = .ok a ∧ exec serve s (f a) = (.ok b, s') := by
  cases x <;> simp

end Task

/-! ## Interleaved calls -/

/-- A served request: whose it is, the store it found, and the reply. -/
structure Event (κ S ρ σ : Type) where
  caller : κ
  before : S
  request : ρ
  reply : σ

/-- A server with its callers. A caller without a session is idle. -/
structure Clients (κ S ρ σ α : Type) where
  store : S
  sessions : κ → Option (Program ρ σ α)
  events : List (Event κ S ρ σ)

/-- A caller starts a call, or its next request is served. -/
inductive Move (κ ρ σ α : Type) where
  | start (caller : κ) (call : Program ρ σ α)
  | serve (caller : κ)

namespace Clients

variable (serve : S → ρ → σ × S)

/-- One move. -/
def step [DecidableEq κ] (s : Clients κ S ρ σ α) : Move κ ρ σ α → Clients κ S ρ σ α
  | .start caller call => { s with sessions := Function.update s.sessions caller (some call) }
  | .serve caller =>
    match s.sessions caller with
    | some (.call request next) =>
      ⟨(serve s.store request).2,
        Function.update s.sessions caller (some (next (serve s.store request).1)),
        s.events ++ [⟨caller, s.store, request, (serve s.store request).1⟩]⟩
    | _ => s

/-- A run from a store with every caller idle. -/
def run [DecidableEq κ] (store : S) (moves : List (Move κ ρ σ α)) : Clients κ S ρ σ α :=
  moves.foldl (step serve) ⟨store, fun _ => none, []⟩

/-- The store the event at an index found, the present one at the end. -/
def storeAt (s : Clients κ S ρ σ α) (j : Nat) : S := (s.events[j]?).elim s.store Event.before

/-- The latest exchange of a caller before an index, where there is one. -/
def Latest (events : List (Event κ S ρ σ)) (j : Nat) (caller : κ) : Option (ρ × σ) → Prop
  | none => True
  | some (request, reply) => ∃ i e, i < j ∧ events[i]? = some e ∧ e.caller = caller ∧
      e.request = request ∧ e.reply = reply ∧
      ∀ k e', i < k → k < j → events[k]? = some e' → e'.caller ≠ caller

variable {serve} {guard : Option (ρ × σ) → ρ → Prop} {s : Clients κ S ρ σ α}
  {events : List (Event κ S ρ σ)} {last : Option (ρ × σ)} {caller : κ} {j : Nat}

theorem Latest.append (h : Latest events j caller last) (hj : j ≤ events.length)
    (e : Event κ S ρ σ) : Latest (events ++ [e]) j caller last := by
  cases last with
  | none => trivial
  | some exchange =>
    obtain ⟨i, e', hij, he', hc, hq, hr, hk⟩ := h
    refine ⟨i, e', hij, ?_, hc, hq, hr, fun k e'' hik hkj he'' => hk k e'' hik hkj ?_⟩
    · rw [getElem?_append_left (by omega)]
      exact he'
    · rwa [getElem?_append_left (by omega)] at he''

/-- The latest exchange of a caller is not affected by another caller's event. -/
theorem Latest.other (h : Latest events events.length caller last) {e : Event κ S ρ σ}
    (he : e.caller ≠ caller) : Latest (events ++ [e]) (events.length + 1) caller last := by
  cases last with
  | none => trivial
  | some exchange =>
    obtain ⟨i, e', hij, he', hc, hq, hr, hk⟩ := h
    refine ⟨i, e', by omega, ?_, hc, hq, hr, fun k e'' hik hkj he'' => ?_⟩
    · rw [getElem?_append_left (by omega)]
      exact he'
    · rcases Nat.lt_or_ge k events.length with hlt | hge
      · rw [getElem?_append_left hlt] at he''
        exact hk k e'' hik hlt he''
      · obtain rfl : k = events.length := by omega
        rw [getElem?_concat_length] at he''
        obtain rfl := Option.some.inj he''
        exact he

theorem latest_self (events : List (Event κ S ρ σ)) (e : Event κ S ρ σ) :
    Latest (events ++ [e]) (events.length + 1) e.caller (some (e.request, e.reply)) :=
  ⟨events.length, e, by omega, getElem?_concat_length, rfl, rfl, rfl,
    fun k _ h1 h2 _ => absurd h1 (by omega)⟩

/-- What holds of a run: what is left of each call still follows `guard`, every event does, and the
stores of consecutive events fit together. -/
structure Tracked (serve : S → ρ → σ × S) (guard : Option (ρ × σ) → ρ → Prop)
    (s : Clients κ S ρ σ α) : Prop where
  sessions : ∀ c p, s.sessions c = some p →
    ∃ last, Latest s.events s.events.length c last ∧ p.Follows guard last
  events : ∀ j e, s.events[j]? = some e → ∃ last, Latest s.events j e.caller last ∧ guard last e.request
  served : ∀ j e, s.events[j]? = some e →
    e.reply = (serve e.before e.request).1 ∧ s.storeAt (j + 1) = (serve e.before e.request).2

theorem getElem?_concat {e e' : Event κ S ρ σ} (h : (events ++ [e])[j]? = some e') :
    events[j]? = some e' ∨ (j = events.length ∧ e' = e) := by
  rcases Nat.lt_trichotomy j events.length with hlt | rfl | hgt
  · rw [getElem?_append_left hlt] at h
    exact Or.inl h
  · rw [getElem?_concat_length] at h
    exact Or.inr ⟨rfl, (Option.some.inj h).symm⟩
  · rw [getElem?_eq_none (by simp; omega)] at h
    exact absurd h (by simp)

theorem Tracked.start [DecidableEq κ] (h : Tracked serve guard s) {call : Program ρ σ α}
    (hc : call.Follows guard none) : Tracked serve guard (step serve s (.start caller call)) := by
  refine ⟨fun c p hp => ?_, h.events, h.served⟩
  by_cases hcc : c = caller
  · subst hcc
    simp only [step, Function.update_self] at hp
    cases hp
    exact ⟨none, trivial, hc⟩
  · simp only [step, Function.update_of_ne hcc] at hp
    exact h.sessions c p hp

theorem Tracked.next [DecidableEq κ] (h : Tracked serve guard s) :
    Tracked serve guard (step serve s (.serve caller)) := by
  rw [step]
  split
  · rename_i request next hsession
    obtain ⟨last, hlast, hguard, hnext⟩ := h.sessions caller _ hsession
    refine ⟨fun c p hp => ?_, fun j e he => ?_, fun j e he => ?_⟩
    · rw [length_append]
      by_cases hcc : c = caller
      · subst hcc
        simp only [Function.update_self] at hp
        cases hp
        exact ⟨_, latest_self _ _, hnext _⟩
      · simp only [Function.update_of_ne hcc] at hp
        obtain ⟨last, hlast, hp⟩ := h.sessions c p hp
        exact ⟨last, hlast.other (Ne.symm hcc), hp⟩
    · rcases getElem?_concat he with he | ⟨rfl, rfl⟩
      · obtain ⟨last, hl, hg⟩ := h.events j e he
        have hj := (List.getElem?_eq_some_iff.mp he).1
        exact ⟨last, hl.append (Nat.le_of_lt hj) _, hg⟩
      · exact ⟨last, hlast.append (Nat.le_refl _) _, hguard⟩
    · rcases getElem?_concat he with he | ⟨rfl, rfl⟩
      · obtain ⟨hr, hs⟩ := h.served j e he
        refine ⟨hr, ?_⟩
        rw [← hs]
        have hj := (List.getElem?_eq_some_iff.mp he).1
        rcases Nat.lt_or_ge (j + 1) s.events.length with hlt | hge
        · simp [storeAt, getElem?_append_left hlt, getElem?_eq_getElem hlt]
        · obtain hj' : j + 1 = s.events.length := by omega
          simp [storeAt, hj']
      · refine ⟨rfl, ?_⟩
        rw [storeAt, getElem?_eq_none (by simp)]
        rfl
  · exact h

/-- **Every run is tracked**, when every call that is started follows `guard`. -/
theorem run_tracked [DecidableEq κ] {store : S} {moves : List (Move κ ρ σ α)}
    (hstart : ∀ c call, .start c call ∈ moves → call.Follows guard none) :
    Tracked serve guard (run serve store moves) := by
  unfold run
  have hinit : Tracked serve guard (⟨store, fun _ => none, []⟩ : Clients κ S ρ σ α) :=
    ⟨fun _ _ h => absurd h (by simp), fun _ _ h => absurd h (by simp), fun _ _ h => absurd h (by simp)⟩
  generalize (⟨store, fun _ => none, []⟩ : Clients κ S ρ σ α) = s at hinit
  induction moves generalizing s with
  | nil => exact hinit
  | cons move moves ih =>
    refine ih (fun c call h => hstart c call (mem_cons_of_mem _ h)) _ ?_
    cases move with
    | start c call => exact hinit.start (hstart c call mem_cons_self)
    | serve c => exact hinit.next

theorem storeAt_length (s : Clients κ S ρ σ α) : s.storeAt s.events.length = s.store := by
  rw [storeAt, getElem?_eq_none (Nat.le_refl _)]
  rfl

theorem storeAt_zero_step [DecidableEq κ] (s : Clients κ S ρ σ α) (move : Move κ ρ σ α) :
    (step serve s move).storeAt 0 = s.storeAt 0 := by
  cases move with
  | start c call => rfl
  | serve c =>
    rw [step]
    split
    · cases h : s.events with
      | nil => simp [storeAt, h]
      | cons e es => simp [storeAt, h]
    · rfl

theorem run_storeAt_zero [DecidableEq κ] (store : S) (moves : List (Move κ ρ σ α)) :
    (run serve store moves).storeAt 0 = store := by
  suffices h : ∀ (s : Clients κ S ρ σ α), (moves.foldl (step serve) s).storeAt 0 = s.storeAt 0 from h _
  induction moves with
  | nil => exact fun _ => rfl
  | cons move moves ih =>
    intro s
    rw [foldl_cons, ih, storeAt_zero_step]

/-- **What each event of a stretch keeps is kept over the stretch.** -/
theorem Tracked.stretch_rule {P : Nat → S → Prop} (h : Tracked serve guard s) {i : Nat}
    (hi : P i (s.storeAt i)) (hj : j ≤ s.events.length) (hij : i ≤ j)
    (hstep : ∀ k e, i ≤ k → k < j → s.events[k]? = some e → P k e.before →
      P (k + 1) (serve e.before e.request).2) : P j (s.storeAt j) := by
  induction hij with
  | refl => exact hi
  | @step k hik ih =>
    have hk := ih (by omega) fun k' e h1 h2 => hstep k' e h1 (by omega)
    have he : s.events[k]? = some (s.events[k]) := getElem?_eq_getElem (by omega)
    rw [(h.served k _ he).2]
    refine hstep k _ hik (by omega) he ?_
    simpa only [storeAt, he, Option.elim] using hk

end Clients

end Wotex
