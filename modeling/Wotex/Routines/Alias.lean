import Wotex.Json.Same
import Wotex.Routines.Compiler

/-!
# Numeric aliases: what a regenerated program fixes of a retained one

`Compiler.toMap` compares a retained program with its regeneration by `==`. Everything in the
program is fixed by that comparison except whether a number of the IR, the profile or the limits is
an integer or the float of the same value.

`IR.map Num.value` is an IR with its numbers as rationals, so two IRs with one image are equal up to
such aliases. The encoders are injective up to `f` for every comparison that keeps `f`
(`Json.Agreement`); at `Num.value` this reads `==`, at `id` it reads `===`.
-/

namespace Wotex.Routines

open Scalar

open Wotex.Json (Value Agreement)

/-! ## The names of closed choices -/

theorem Comparison.text_injective : Function.Injective Comparison.text := by
  intro a b h
  cases a <;> cases b <;> first | rfl | exact absurd h (by decide)

theorem Connective.text_injective : Function.Injective Connective.text := by
  intro a b h
  cases a <;> cases b <;> first | rfl | exact absurd h (by decide)

theorem Direction.text_injective : Function.Injective Direction.text := by
  intro a b h
  cases a <;> cases b <;> first | rfl | exact absurd h (by decide)

theorem Stage.text_injective : Function.Injective Stage.text := by
  intro a b h
  cases a <;> cases b <;> first | rfl | exact absurd h (by decide)

theorem Kind.text_injective : Function.Injective Kind.text := by
  intro a b h
  cases a <;> cases b <;> first | rfl | exact absurd h (by decide)

/-! ## The encoders -/

section Encoders

variable {α : Type} {f : Num → α} {R : Value → Value → Prop} (agree : Agreement f R)

include agree

theorem Scalar.map_eq_of_data : ∀ {s t : Scalar Num}, R s.data t.data → s.map f = t.map f
  | .bool _, .bool _, h => congrArg bool (agree.bool h)
  | .num _, .num _, h => congrArg num (agree.num h)
  | .str _, .str _, h => congrArg str (agree.str h)
  | .bool _, .num _, h | .bool _, .str _, h | .num _, .bool _, h | .num _, .str _, h
  | .str _, .bool _, h | .str _, .num _, h =>
    absurd (agree.shape h) (by simp [data, Value.shape])

theorem Truth.eq_of_data : ∀ {s t : Truth}, R s.data t.data → s = t
  | .yes, .yes, _ | .no, .no, _ | .unknown, .unknown, _ => rfl
  | .yes, .no, h | .no, .yes, h => absurd (agree.bool h) (by decide)
  | .yes, .unknown, h | .no, .unknown, h | .unknown, .yes, h | .unknown, .no, h =>
    absurd (agree.shape h) (by simp [Truth.data, Value.shape])

theorem pathData_eq {p q : List Num} (h : R (pathData p) (pathData q)) : p.map f = q.map f :=
  agree.items _ agree.num h

theorem Ref.eq_of_data {r s : Ref} (h : R r.data s.data) : r = s := by
  have h := agree.obj h
  simp only [List.forall₂_cons, true_and] at h
  obtain ⟨h1, h2, h3, -⟩ := h
  cases r
  cases s
  simp only [Ref.mk.injEq]
  exact ⟨agree.str h1, agree.str h3, agree.str h2⟩

theorem Instr.map_eq_of_data {i j : Instr Num} (h : R i.data j.data) : i.map f = j.map f := by
  replace h : List.Forall₂ R i.items j.items := agree.arr h
  cases i <;> cases j <;> simp [Instr.items] at h
  case literal.literal => simp [Truth.eq_of_data agree h.2]
  case literal.combine _ op _ =>
    have ht := agree.str h.1
    cases op <;> exact absurd ht (by decide)
  case combine.literal op _ _ =>
    have ht := agree.str h.1
    cases op <;> exact absurd ht (by decide)
  case compare.compare =>
    simp [Instr.map, Comparison.text_injective (agree.str h.1), agree.str h.2.1,
      Scalar.map_eq_of_data agree h.2.2]
  case not.not => rfl
  case combine.combine =>
    simp [Instr.map, Connective.text_injective (agree.str h.1), agree.num h.2]

theorem codeData_eq {c d : List (Instr Num)} (h : R (codeData c) (codeData d)) :
    c.map (Instr.map f) = d.map (Instr.map f) :=
  agree.items _ (Instr.map_eq_of_data agree) h

theorem EffectNode.map_eq_of_data {e e' : EffectNode Num} (h : R e.data e'.data) : e.map f = e'.map f := by
  have h := agree.obj h
  simp only [List.forall₂_cons, true_and] at h
  obtain ⟨h1, h2, h3, h4, h5, -, h7, -⟩ := h
  simp only [EffectNode.map, EffectNode.mk.injEq]
  exact ⟨agree.str h4, pathData_eq agree h7, agree.str h1, Scalar.map_eq_of_data agree h5,
    Stage.text_injective (agree.str h2), Ref.eq_of_data agree h3⟩

theorem arguments_eq {a b : Dict (Scalar Num)}
    (h : R (.obj (a.map data).entries) (.obj (b.map data).entries)) :
    a.map (map f) = b.map (map f) := by
  simp only [Dict.map, Dict.mk.injEq]
  exact agree.entries (g := map f) (map_eq_of_data agree) h

omit agree in
theorem Node.get_kind (n : Node Num) : n.data.get "kind" = .str n.kind.text := by
  cases n <;> rfl

theorem Node.kind_eq_of_data {n m : Node Num} (h : R n.data m.data) : n.kind = m.kind := by
  have hk : R (n.data.get "kind") (m.data.get "kind") := by
    cases n <;> cases m <;> exact agree.get h "kind"
  rw [Node.get_kind, Node.get_kind] at hk
  exact Kind.text_injective (agree.str hk)

omit agree in
mutual
theorem Node.map_eq_of_data (agree : Agreement f R) : ∀ {n m : Node Num}, R n.data m.data →
    n.map f = m.map f
  | n, m, h => by
    have hk := Node.kind_eq_of_data agree h
    cases n <;> cases m <;> simp only [Node.kind, reduceCtorEq] at hk
    case effect.effect => simp only [Node.map, EffectNode.map_eq_of_data agree h]
    all_goals
      have h := agree.obj h
      simp only [List.forall₂_cons, true_and] at h
    case noop.noop => simp only [Node.map, agree.str h.1, pathData_eq agree h.2.2.1]
    case sequence.sequence =>
      simp only [Node.map, agree.str h.1, pathData_eq agree h.2.2.1,
        Node.mapList_eq_of_data agree (agree.arr h.2.2.2.1)]
    case parallel.parallel =>
      simp only [Node.map, agree.str h.2.1, pathData_eq agree h.2.2.2.1,
        Node.mapList_eq_of_data agree (agree.arr h.1)]
    case ite.ite =>
      simp only [Node.map, agree.str h.2.2.1, pathData_eq agree h.2.2.2.2.1,
        codeData_eq agree h.1, Node.map_eq_of_data agree h.2.2.2.2.2.1,
        Node.map_eq_of_data agree h.2.1]
    case wait.wait =>
      simp only [Node.map, agree.str h.2.1, pathData_eq agree h.2.2.2.1, codeData_eq agree h.1,
        agree.num h.2.2.2.2.1]
    case delay.delay =>
      simp only [Node.map, agree.str h.2.1, pathData_eq agree h.2.2.2.1, agree.num h.1]
    case invoke.invoke =>
      obtain ⟨h1, h2, h3, h4, -, h6, h7, h8, h9, -⟩ := h
      simp only [Node.map, InvokeNode.map, arguments_eq agree h1, Node.map_eq_of_data agree h2,
        codeData_eq agree h3, agree.str h4, pathData_eq agree h6, agree.str h7, agree.str h8,
        agree.num h9]

theorem Node.mapList_eq_of_data (agree : Agreement f R) : ∀ {ns ms : List (Node Num)},
    List.Forall₂ R (Node.dataList ns) (Node.dataList ms) → Node.mapList f ns = Node.mapList f ms
  | [], [], _ => rfl
  | n :: ns, m :: ms, h => by
    simp only [Node.dataList, List.forall₂_cons] at h
    simp only [Node.mapList, Node.map_eq_of_data agree h.1, Node.mapList_eq_of_data agree h.2]
  | [], _ :: _, h | _ :: _, [], h => by simp [Node.dataList] at h
end

theorem Hysteresis.map_eq_of_data : ∀ {a b : Option (Hysteresis Num)},
    R (jopt Hysteresis.data a) (jopt Hysteresis.data b) →
      a.map (Hysteresis.map f) = b.map (Hysteresis.map f)
  | none, none, _ => rfl
  | some _, some _, h => by
    have h := agree.obj h
    simp only [List.forall₂_cons, true_and] at h
    simp [Hysteresis.map, agree.num h.1, agree.num h.2.1]
  | none, some _, h | some _, none, h =>
    absurd (agree.shape h) (by simp [jopt, Hysteresis.data, Value.shape])

theorem Trigger.map_eq_of_data {s t : Trigger Num} (h : R s.data t.data) : s.map f = t.map f := by
  have hk : R (s.data.get "kind") (t.data.get "kind") := by
    cases s <;> cases t <;> exact agree.get h "kind"
  cases s <;> cases t <;> first | exact absurd (agree.str hk) (by decide) | skip
  case manual.manual => rfl
  case edge.edge =>
    have h := agree.obj h
    simp only [List.forall₂_cons, true_and] at h
    obtain ⟨h1, h2, h3, h4, h5, -⟩ := h
    simp [Trigger.map, EdgeTrigger.map, agree.str h1, agree.num h2, agree.num h3,
      Direction.text_injective (agree.str h4), Hysteresis.map_eq_of_data agree h5]
  all_goals
    have h := agree.obj h
    simp only [List.forall₂_cons, true_and] at h
    simp [agree.str h.2.1, agree.str h.2.2.1]

theorem IR.map_eq_of_data {a b : IR Num} (h : R a.data b.data) : a.map f = b.map f := by
  have h := agree.obj h
  simp only [List.forall₂_cons, true_and] at h
  obtain ⟨h1, -, h3, h4, h5, -⟩ := h
  simp [IR.map, codeData_eq agree h1, agree.num h3, Node.map_eq_of_data agree h4,
    Trigger.map_eq_of_data agree h5]

theorem ProfileOf.map_eq_of_data {a b : ProfileOf Num} (h : R a.data b.data) : a.map f = b.map f := by
  have h := agree.obj h
  simp only [List.forall₂_cons, true_and] at h
  obtain ⟨h1, h2, h3, h4, h5, h6, h7, h8, h9, h10, h11, h12, -⟩ := h
  simp [ProfileOf.map, agree.num h1, agree.num h2, agree.num h3, agree.num h4, agree.num h5,
    agree.num h6, agree.num h7, agree.num h8, agree.num h9, agree.num h10, agree.num h11,
    agree.num h12]

theorem LimitsOf.map_eq_of_data {a b : LimitsOf Num} (h : R a.data b.data) : a.map f = b.map f := by
  have h := agree.obj h
  simp only [List.forall₂_cons, true_and] at h
  obtain ⟨h1, h2, h3, h4, h5, h6, -⟩ := h
  simp [LimitsOf.map, agree.num h1, agree.num h2, agree.num h3, agree.num h4, agree.num h5, agree.num h6]

end Encoders

end Wotex.Routines
