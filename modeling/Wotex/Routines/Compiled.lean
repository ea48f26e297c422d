import Wotex.Routines.Regeneration

/-!
# What the compiler guarantees about a tree

A built tree is `Placed`: every node carries the path at which it stands, so the paths along the
tree in preorder increase lexicographically (`Placed.sorted`) and no two nodes share one. Aliasing
keeps this: the paths of an accepted program differ already by value.
-/

namespace Wotex.Routines

open Wotex.Json (Value)
open List

/-! ## Placement -/

mutual
/-- Every node of the tree carries the path at which it stands, the root the given one. -/
def Node.Placed : Node Int → List Int → Prop
  | .noop _ p, path | .wait _ p _ _, path | .delay _ p _, path => p = path
  | .effect e, path => e.path = path
  | .sequence _ p steps, path => p = path ∧ Node.PlacedList steps path 0
  | .parallel _ p branches, path => p = path ∧ Node.PlacedList branches path 0
  | .ite _ p _ yes no, path => p = path ∧ yes.Placed (path ++ [0]) ∧ no.Placed (path ++ [1])
  | .invoke i _ body, path => i.path = path ∧ body.Placed (path ++ [0])

/-- The children of a node at a path, from an index on. -/
def Node.PlacedList : List (Node Int) → List Int → Int → Prop
  | [], _, _ => True
  | n :: ns, path, index => n.Placed (path ++ [index]) ∧ Node.PlacedList ns path (index + 1)
end

variable {n : Node Int} {path : List Int}

theorem Node.Placed.path_eq (h : n.Placed path) : n.path = path := by
  cases n
  all_goals first | exact h | exact h.1

theorem Node.Placed.root (h : n.Placed path) : ∃ t, n.path = path ++ t :=
  ⟨[], by rw [h.path_eq, append_nil]⟩

mutual
theorem Node.Placed.extends : ∀ {n : Node Int} {path : List Int}, n.Placed path →
    ∀ m ∈ n.nodes, ∃ t, m.path = path ++ t
  | .noop .., _, h | .effect _, _, h | .wait .., _, h | .delay .., _, h =>
    forall_mem_singleton.mpr h.root
  | .sequence _ _ steps, path, h | .parallel _ _ steps, path, h => by
    refine forall_mem_cons.mpr ⟨h.root, fun m hm => ?_⟩
    obtain ⟨j, t, -, ht⟩ := Node.PlacedList.extends h.2 m hm
    exact ⟨j :: t, ht⟩
  | .ite _ _ _ yes no, path, h => by
    refine forall_mem_cons.mpr ⟨h.root, forall_mem_append.mpr ⟨fun m hm => ?_, fun m hm => ?_⟩⟩
    · obtain ⟨t, ht⟩ := h.2.1.extends m hm
      exact ⟨0 :: t, by simpa using ht⟩
    · obtain ⟨t, ht⟩ := h.2.2.extends m hm
      exact ⟨1 :: t, by simpa using ht⟩
  | .invoke _ _ body, path, h => by
    refine forall_mem_cons.mpr ⟨h.root, fun m hm => ?_⟩
    obtain ⟨t, ht⟩ := h.2.extends m hm
    exact ⟨0 :: t, by simpa using ht⟩

theorem Node.PlacedList.extends : ∀ {ns : List (Node Int)} {path : List Int} {index : Int},
    Node.PlacedList ns path index → ∀ m ∈ Node.nodesList ns, ∃ j t, index ≤ j ∧ m.path = path ++ j :: t
  | [], _, _, _, m, hm => absurd hm not_mem_nil
  | n :: ns, path, index, h, m, hm => by
    rcases mem_append.mp hm with hm | hm
    · obtain ⟨t, ht⟩ := h.1.extends m hm
      exact ⟨index, t, le_refl _, by simpa using ht⟩
    · obtain ⟨j, t, hj, ht⟩ := h.2.extends m hm
      exact ⟨j, t, by omega, ht⟩
end

theorem Node.Placed.below {i : Int} (h : n.Placed (path ++ [i])) :
    ∀ m ∈ n.nodes, ∃ t, m.path = path ++ i :: t := by
  simpa using h.extends

theorem path_lt_extension (path : List Int) (j : Int) (t : List Int) : path < path ++ j :: t := by
  have h : path ++ [] < path ++ j :: t := append_left_lt (nil_lt_cons j t)
  rwa [append_nil] at h

/-- Siblings come in the order of their indices, with everything below them. -/
theorem path_lt_sibling (path : List Int) {i j : Int} (h : i < j) (t u : List Int) :
    path ++ i :: t < path ++ j :: u :=
  append_left_lt (cons_lt_cons_iff.mpr (Or.inl h))

mutual
/-- **The paths increase along the tree.** -/
theorem Node.Placed.sorted : ∀ {n : Node Int} {path : List Int}, n.Placed path →
    (n.nodes.map Node.path).Pairwise (· < ·)
  | .noop .., _, _ | .effect _, _, _ | .wait .., _, _ | .delay .., _, _ => pairwise_singleton _ _
  | .sequence _ _ steps, path, h | .parallel _ _ steps, path, h => by
    refine pairwise_cons.mpr ⟨forall_mem_map.mpr fun m hm => ?_, h.2.sorted⟩
    obtain ⟨j, t, -, ht⟩ := h.2.extends m hm
    rw [h.path_eq, ht]
    exact path_lt_extension path j t
  | .ite _ _ _ yes no, path, h => by
    refine pairwise_cons.mpr ⟨forall_mem_map.mpr ?_, ?_⟩
    · rw [h.path_eq]
      refine forall_mem_append.mpr ⟨fun m hm => ?_, fun m hm => ?_⟩
      · obtain ⟨t, ht⟩ := h.2.1.below m hm
        exact ht ▸ path_lt_extension path 0 t
      · obtain ⟨t, ht⟩ := h.2.2.below m hm
        exact ht ▸ path_lt_extension path 1 t
    · rw [map_append]
      refine pairwise_append.mpr ⟨h.2.1.sorted, h.2.2.sorted,
        forall_mem_map.mpr fun m hm => forall_mem_map.mpr fun k hk => ?_⟩
      obtain ⟨t, ht⟩ := h.2.1.below m hm
      obtain ⟨u, hu⟩ := h.2.2.below k hk
      rw [ht, hu]
      exact path_lt_sibling path (by decide) t u
  | .invoke _ _ body, path, h => by
    refine pairwise_cons.mpr ⟨forall_mem_map.mpr fun m hm => ?_, h.2.sorted⟩
    obtain ⟨t, ht⟩ := h.2.below m hm
    rw [h.path_eq, ht]
    exact path_lt_extension path 0 t

theorem Node.PlacedList.sorted : ∀ {ns : List (Node Int)} {path : List Int} {index : Int},
    Node.PlacedList ns path index → ((Node.nodesList ns).map Node.path).Pairwise (· < ·)
  | [], _, _, _ => List.Pairwise.nil
  | n :: ns, path, index, h => by
    rw [Node.nodesList, map_append]
    refine pairwise_append.mpr ⟨h.1.sorted, h.2.sorted,
      forall_mem_map.mpr fun m hm => forall_mem_map.mpr fun k hk => ?_⟩
    obtain ⟨t, ht⟩ := h.1.below m hm
    obtain ⟨j, u, hj, hu⟩ := h.2.extends k hk
    rw [ht, hu]
    exact path_lt_sibling path (by omega) t u
end

/-! ## Expansion -/

/-- The predicate code of a node. -/
def Node.code {ν : Type} : Node ν → List (Instr ν)
  | .ite _ _ code _ _ | .wait _ _ code _ | .invoke _ code _ => code
  | _ => []

namespace Expansion

theorem charge_eq_ok {count maximum n : Int} :
    charge count maximum = .ok n ↔ count < maximum ∧ n = count + 1 := by
  unfold charge
  split_ifs with h <;> simp [h, refusal, eq_comm]

/-- The counters are within the profile. -/
def Count.Within (c : Count) (p : Profile) : Prop :=
  c.nodes ≤ p.expandedNodes ∧ c.predicates ≤ p.predicateNodes ∧ c.effects ≤ p.effects ∧ c.waits ≤ p.waits

/-- The counters after nodes: each of them and each instruction of its code. -/
def Count.plus (c : Count) (ns : List (Node Int)) : Count where
  nodes := c.nodes + ns.length
  predicates := c.predicates + (ns.map fun n => (n.code.length : Int)).sum
  effects := c.effects + ns.countP fun n => n.kind = .effect
  waits := c.waits + ns.countP fun n => n.kind = .wait ∨ n.kind = .delay

variable {host : Host} {env : Env} {p : Profile} {c c' c₁ : Count} {n : Node Int} {ns ms : List (Node Int)}

mutual
/-- Each predicate is charged once and emits one instruction. -/
theorem predicate_charged : ∀ {q : Predicate} {c : Count} {code : List (Instr Int)} {c' : Count},
    predicate host env q c = .ok (code, c') →
      c' = { c with predicates := c.predicates + code.length } ∧
      c.predicates + code.length ≤ env.profile.predicateNodes
  | q, c, code, c', h => by
    rw [predicate] at h
    simp only [bind_eq_ok, charge_eq_ok] at h
    obtain ⟨_, ⟨hc, rfl⟩, h⟩ := h
    cases q with
    | literal =>
      cases h
      exact ⟨rfl, hc⟩
    | compare _ binding =>
      cases hb : env.installed.bindings.get binding with
      | none => simp [hb] at h
      | some r =>
        simp only [hb, bind_eq_ok, exists_unit] at h
        obtain ⟨-, -, _, -, -, ⟨⟩⟩ := h
        exact ⟨rfl, hc⟩
    | not arg =>
      simp only [bind_eq_ok, Prod.exists] at h
      obtain ⟨rest, _, hrest, ⟨⟩⟩ := h
      obtain ⟨rfl, hle⟩ := predicate_charged hrest
      simp only [length_append, length_singleton] at hle ⊢
      exact ⟨by congr 1; omega, by omega⟩
    | combine _ args =>
      simp only [bind_eq_ok, Prod.exists] at h
      obtain ⟨rest, _, hrest, ⟨⟩⟩ := h
      obtain ⟨rfl, hle⟩ := predicates_charged hrest
      simp only [length_append, length_singleton] at hle ⊢
      exact ⟨by congr 1; omega, by omega⟩

theorem predicates_charged : ∀ {qs : List Predicate} {c : Count} {code : List (Instr Int)} {c' : Count},
    predicates host env qs c = .ok (code, c') →
      c' = { c with predicates := c.predicates + code.length } ∧
      (c.predicates ≤ env.profile.predicateNodes → c.predicates + code.length ≤ env.profile.predicateNodes)
  | [], c, code, c', h => by
    cases h
    simp
  | q :: qs, c, code, c', h => by
    simp only [predicates, bind_eq_ok, Prod.exists] at h
    obtain ⟨first, _, hfirst, rest, _, hrest, ⟨⟩⟩ := h
    obtain ⟨rfl, hle⟩ := predicate_charged hfirst
    obtain ⟨rfl, hle'⟩ := predicates_charged hrest
    simp only [length_append] at hle' ⊢
    exact ⟨by congr 1; omega, fun _ => by omega⟩
end

/-- What an expansion to nodes does: it counts them, within the profile and at paths of at most 32
steps. -/
structure Grows (p : Profile) (c : Count) (ns : List (Node Int)) (c' : Count) : Prop where
  count : c' = c.plus ns
  within : c.Within p → c'.Within p
  short : ∀ n ∈ ns, n.path.length ≤ 32

theorem Grows.append (h : Grows p c ns c₁) (h' : Grows p c₁ ms c') : Grows p c (ns ++ ms) c' where
  count := by rw [h'.count, h.count]; simp [Count.plus, add_assoc]
  within hc := h'.within (h.within hc)
  short := forall_mem_append.mpr ⟨h.short, h'.short⟩

theorem Grows.cons (h : Grows p c [n] c₁) (h' : Grows p c₁ ns c') : Grows p c (n :: ns) c' := h.append h'

/-- One node, with what is charged for it. -/
theorem Grows.one (hpath : n.path.length ≤ 32) (hnodes : c.nodes < p.expandedNodes)
    (heffects : n.kind = .effect → c.effects < p.effects)
    (hwaits : n.kind = .wait ∨ n.kind = .delay → c.waits < p.waits)
    (hcode : n.code = [] ∨ c.predicates + n.code.length ≤ p.predicateNodes)
    (hcount : c' = c.plus [n]) : Grows p c [n] c' := by
  subst hcount
  refine ⟨rfl, fun hc => ?_, by simpa using hpath⟩
  obtain ⟨-, hp, he, hw⟩ := hc
  simp only [Count.plus]
  refine ⟨hnodes, ?_, ?_, ?_⟩
  · rcases hcode with hcode | hcode <;> simp_all
  · by_cases hk : n.kind = .effect
    · simpa [hk, Int.add_one_le_iff] using heffects hk
    · simpa [hk] using he
  · by_cases hk : n.kind = .wait ∨ n.kind = .delay
    · simpa [hk, Int.add_one_le_iff] using hwaits hk
    · simpa [hk] using hw

/-- An invocation, after the charge for its node, puts a tree at the path it is given and counts it. -/
def Invocation.Expands (invocation : Invocation) : Prop :=
  ∀ (env : Env) id routineId revision arguments path (c : Count) n c', path.length ≤ 32 →
    c.nodes < env.profile.expandedNodes →
    invocation env id routineId revision arguments path { c with nodes := c.nodes + 1 } = .ok (n, c') →
      n.Placed path ∧ Grows env.profile c n.nodes c'

variable {invocation : Invocation}

mutual
theorem nodeWith_expands (hi : Invocation.Expands invocation) :
    ∀ {s : Step} {path : List Int} {c : Count} {n : Node Int} {c' : Count},
    nodeWith host invocation env s path c = .ok (n, c') → n.Placed path ∧ Grows env.profile c n.nodes c'
  | s, path, c, n, c', h => by
    rw [nodeWith] at h
    simp only [bind_eq_ok, exists_unit, require_eq_ok, decide_eq_true_eq, charge_eq_ok] at h
    obtain ⟨hp, _, ⟨hc, rfl⟩, h⟩ := h
    cases s with
    | noop =>
      cases h
      exact ⟨rfl, .one hp hc nofun nofun (.inl rfl) (by simp [Count.plus, Node.code, Node.kind])⟩
    | effect _ binding =>
      cases hb : env.installed.bindings.get binding with
      | none => simp [hb] at h
      | some r =>
        simp only [hb, bind_eq_ok, exists_unit, charge_eq_ok] at h
        obtain ⟨-, -, _, -, -, _, ⟨he, rfl⟩, ⟨⟩⟩ := h
        exact ⟨rfl, .one hp hc (fun _ => he) nofun (.inl rfl) (by simp [Count.plus, Node.code, Node.kind])⟩
    | sequence _ steps | parallel _ steps =>
      simp only [bind_eq_ok, Prod.exists] at h
      obtain ⟨ns, _, hns, ⟨⟩⟩ := h
      obtain ⟨hplaced, hgrows⟩ := childrenWith_expands hi hns
      exact ⟨⟨rfl, hplaced⟩, .cons (.one hp hc nofun nofun (.inl rfl)
        (by simp [Count.plus, Node.code, Node.kind])) hgrows⟩
    | ite _ q yes no =>
      simp only [bind_eq_ok, Prod.exists] at h
      obtain ⟨code, _, hq, a, _, hy, b, _, hn, ⟨⟩⟩ := h
      obtain ⟨rfl, hle⟩ := predicate_charged hq
      obtain ⟨hya, hyg⟩ := nodeWith_expands hi hy
      obtain ⟨hna, hng⟩ := nodeWith_expands hi hn
      exact ⟨⟨rfl, hya, hna⟩, .cons (.one hp hc nofun nofun (.inr hle)
        (by simp [Count.plus, Node.code, Node.kind])) (hyg.append hng)⟩
    | wait _ q t =>
      simp only [bind_eq_ok, charge_eq_ok, Prod.exists] at h
      obtain ⟨_, ⟨hw, rfl⟩, code, _, hq, ⟨⟩⟩ := h
      obtain ⟨rfl, hle⟩ := predicate_charged hq
      exact ⟨rfl, .one hp hc nofun (fun _ => hw) (.inr hle) (by simp [Count.plus, Node.code, Node.kind])⟩
    | delay =>
      simp only [bind_eq_ok, charge_eq_ok] at h
      obtain ⟨_, ⟨hw, rfl⟩, ⟨⟩⟩ := h
      exact ⟨rfl, .one hp hc nofun (fun _ => hw) (.inl rfl) (by simp [Count.plus, Node.code, Node.kind])⟩
    | invoke => exact hi _ _ _ _ _ _ _ _ _ hp hc h

theorem childrenWith_expands (hi : Invocation.Expands invocation) :
    ∀ {ss : List Step} {path : List Int} {index : Int} {c : Count} {ns : List (Node Int)} {c' : Count},
    childrenWith host invocation env ss path index c = .ok (ns, c') →
      Node.PlacedList ns path index ∧ Grows env.profile c (Node.nodesList ns) c'
  | [], path, index, c, ns, c', h => by
    cases h
    exact ⟨trivial, by simp [Node.nodesList, Count.plus], id, nofun⟩
  | s :: ss, path, index, c, ns, c', h => by
    simp only [childrenWith, bind_eq_ok, Prod.exists] at h
    obtain ⟨n, _, hn, ms, _, hms, ⟨⟩⟩ := h
    obtain ⟨hna, hng⟩ := nodeWith_expands hi hn
    obtain ⟨hma, hmg⟩ := childrenWith_expands hi hms
    exact ⟨⟨hna, hma⟩, hng.append hmg⟩
end

theorem invoke_expands : ∀ depth : Nat, Invocation.Expands (invoke host depth)
  | 0 => fun _ _ _ _ _ _ _ _ _ _ _ h => by simp [invoke, refusal] at h
  | depth + 1 => by
    intro env _ routineId _ _ path c _ _ hp hc h
    simp only [invoke] at h
    cases hs : findSource env.installed.definitions routineId with
    | none => simp [hs] at h
    | some child =>
      simp only [hs, bind_eq_ok, exists_unit, Prod.exists] at h
      obtain ⟨_, -, -, code, _, hq, body, _, hb, ⟨⟩⟩ := h
      obtain ⟨rfl, hle⟩ := predicate_charged hq
      obtain ⟨hplaced, hgrows⟩ := nodeWith_expands (invoke_expands depth) hb
      exact ⟨⟨rfl, hplaced⟩, .cons (.one hp hc (by simp [Node.kind]) (by simp [Node.kind]) (.inr hle)
        (by simp [Count.plus, Node.code, Node.kind])) hgrows⟩

/-- A built tree is placed and counted, after the instructions of the root condition. -/
theorem build_expands {source : Source} {installed : Installed} {l : Limits} {ir : IR Int}
    (h : build host source installed p l = .ok ir) :
    ir.condition.length ≤ p.predicateNodes ∧ ir.steps.Placed [] ∧
      Grows p ⟨0, ir.condition.length, 0, 0⟩ ir.steps.nodes
        (Count.plus ⟨0, ir.condition.length, 0, 0⟩ ir.steps.nodes) := by
  simp only [build, bind_eq_ok, exists_unit, Prod.exists] at h
  obtain ⟨condition, _, hq, -, steps, c', hn, ⟨⟩⟩ := h
  obtain ⟨rfl, hle⟩ := predicate_charged hq
  obtain ⟨hplaced, hgrows⟩ := nodeWith_expands (invoke_expands _) hn
  simp only [zero_add] at hgrows hle
  exact ⟨hle, hplaced, hgrows.count ▸ hgrows⟩

end Expansion

/-! ## The tree of an accepted program -/

namespace Regeneration

variable {host : Host} {p : Program} {profile : Profile} {l : Limits}

variable (r : Regeneration host p profile l)
include r

theorem stepsValues : p.ir.steps.map Num.value = r.ir.steps.map Int.cast := congrArg IR.steps r.irValues

/-- The paths of the retained tree have the values of the built ones. -/
theorem pathValues : p.ir.steps.nodes.map (fun n => n.path.map Num.value)
      = r.ir.steps.nodes.map fun n => n.path.map Int.cast := by
  have h := congrArg (fun n => (Node.nodes n).map Node.path) r.stepsValues
  simpa [Node.nodes_map, Function.comp_def] using h

omit r in
theorem map_cast_lt {a b : List Int} (h : a < b) : a.map (Int.cast : Int → ℚ) < b.map Int.cast := by
  induction h with
  | nil => exact .nil
  | cons _ ih => exact .cons ih
  | rel hlt => exact .rel (Int.cast_lt.mpr hlt)

/-- The paths of an accepted program increase by value along the tree. -/
theorem pathValues_sorted : (p.ir.steps.nodes.map fun n => n.path.map Num.value).Pairwise (· < ·) := by
  have h := (Expansion.build_expands r.built).2.1.sorted
  rw [pairwise_map] at h
  rw [r.pathValues, pairwise_map]
  exact h.imp map_cast_lt

theorem pathValues_nodup :
    (p.ir.steps.nodes.map fun n => n.path.map Num.value).Nodup := r.pathValues_sorted.imp ne_of_lt

theorem paths_nodup : (p.ir.steps.nodes.map Node.path).Nodup := by
  refine List.Nodup.of_map (map Num.value) ?_
  rw [map_map]
  exact r.pathValues_nodup

end Regeneration

end Wotex.Routines
