import Wotex.Directory.Document

/-!
# Bounded merge patches (`merge_patch.ex`)

`apply/3` first walks the patch under its depth and node ceilings (`validateJson`), then merges it
into the target in key order (`mergeMembers`), with the depth bounded again. A refusal names the
pointer of the member at fault.

`Rfc7396` is what RFC 7396 says a merge patch does, without any bound, written as its pseudo code. A
patch in key order names each member once, so the result can be read off member by member
(`Rfc7396.find_applyMembers`); a second application changes nothing (`Rfc7396.apply_apply`), and what
is not named stays (`Rfc7396.reach_apply`).

`apply/3` accepts exactly the patches within its limits and returns what the RFC says (`apply_eq_ok`):
the bound of the merge never refuses what the validation accepted.
-/

namespace Wotex.Directory

open Members Dict

open Json (Value)

/-- The members of an object, none of anything else. -/
def membersOf : Option Value → List (Text × Value)
  | some (.obj ms) => ms
  | _ => []

/-! ## What RFC 7396 says -/

namespace Rfc7396

mutual
/-- `MergePatch(Target, Patch)`. -/
def apply (target : Option Value) : Value → Value
  | .obj ps => .obj (applyMembers (membersOf target) ps)
  | v => v

/-- The loop of `MergePatch` over the members of the patch. -/
def applyMembers (target : List (Text × Value)) : List (Text × Value) → List (Text × Value)
  | [] => target
  | (key, v) :: ps =>
    if v = .null then applyMembers (drop key target) ps
    else applyMembers (put key (apply (find key target) v) target) ps
end

theorem sorted_applyMembers : ∀ (ps : List (Text × Value)) {target : List (Text × Value)},
    (target.map Prod.fst).Pairwise (· < ·) → ((applyMembers target ps).map Prod.fst).Pairwise (· < ·)
  | [], _, h => by simpa [applyMembers] using h
  | (key, v) :: ps, target, h => by
    unfold applyMembers
    split_ifs
    · exact sorted_applyMembers ps (sorted_drop h)
    · exact sorted_applyMembers ps (sorted_put h)

/-- A patch applied to a document. -/
def applyDict (d p : Dict Value) : Dict Value :=
  ⟨applyMembers d.entries p.entries, sorted_applyMembers p.entries d.sorted⟩

/-- What a patch member does to the member of the target it names. -/
def patched (old : Option Value) : Option Value → Option Value
  | none => old
  | some v => if v = .null then none else some (apply old v)

theorem find_applyMembers_of_notMem {j : Text} : ∀ (ps : List (Text × Value))
    {target : List (Text × Value)}, j ∉ ps.map Prod.fst → find j (applyMembers target ps) = find j target
  | [], target, _ => by simp [applyMembers]
  | (key, v) :: ps, target, h => by
    simp only [List.map_cons, List.mem_cons, not_or] at h
    unfold applyMembers
    split_ifs
    · rw [find_applyMembers_of_notMem ps h.2, find_drop, if_neg h.1]
    · rw [find_applyMembers_of_notMem ps h.2, find_put, if_neg h.1]

/-- **The result of a merge patch, member by member.** -/
theorem find_applyMembers (j : Text) : ∀ (ps : List (Text × Value)) (target : List (Text × Value)),
    (ps.map Prod.fst).Pairwise (· < ·) →
      find j (applyMembers target ps) = patched (find j target) (find j ps)
  | [], target, _ => by simp [applyMembers, find, patched]
  | (key, v) :: ps, target, h => by
    rw [List.map_cons, List.pairwise_cons] at h
    have hnot : key ∉ ps.map Prod.fst := fun hm => lt_irrefl key (h.1 key hm)
    by_cases hj : key = j
    · subst hj
      unfold applyMembers
      rw [find, if_pos rfl]
      split_ifs with hv
      · rw [find_applyMembers_of_notMem ps hnot, find_drop]
        simp [patched, hv]
      · rw [find_applyMembers_of_notMem ps hnot, find_put]
        simp [patched, hv]
    · unfold applyMembers
      rw [find]
      split_ifs with hv
      · rw [find_applyMembers j ps _ h.2, find_drop, if_neg (Ne.symm hj)]
      · rw [find_applyMembers j ps _ h.2, find_put, if_neg (Ne.symm hj)]

theorem get_applyDict (d p : Dict Value) (j : Text) : (applyDict d p).get j = patched (d.get j) (p.get j) :=
  find_applyMembers j p.entries d.entries p.sorted

/-! ## Laws -/

/-- The objects that a merge can reach, those that are not within an array, are maps. -/
inductive Mapped : Value → Prop where
  | obj {ms : List (Text × Value)} (sorted : (ms.map Prod.fst).Pairwise (· < ·))
      (members : ∀ m ∈ ms, Mapped m.2) : Mapped (.obj ms)
  | other {v : Value} (h : ∀ ms, v ≠ .obj ms) : Mapped v

theorem apply_of_ne_obj {v : Value} (h : ∀ ms, v ≠ .obj ms) (target : Option Value) :
    apply target v = v := by
  cases v with
  | obj ms => exact absurd rfl (h ms)
  | _ => simp [apply]

theorem Mapped.membersOf {target : Option Value} (h : ∀ v ∈ target, Mapped v) :
    ((membersOf target).map Prod.fst).Pairwise (· < ·) ∧ ∀ m ∈ membersOf target, Mapped m.2 := by
  unfold Directory.membersOf
  split
  · cases h _ rfl with
    | obj sorted members => exact ⟨sorted, members⟩
    | other h => exact absurd rfl (h _)
  · simp

/-- **A patch applied twice is a patch applied once.** -/
theorem apply_apply {patch : Value} (hp : Mapped patch) : ∀ {target : Option Value},
    (∀ v ∈ target, Mapped v) → apply (some (apply target patch)) patch = apply target patch := by
  induction hp with
  | other h =>
    intro target _
    rw [apply_of_ne_obj h, apply_of_ne_obj h]
  | @obj ps hps members ih =>
    intro target ht
    obtain ⟨hsorted, hmembers⟩ := Mapped.membersOf ht
    have hd : applyDict (applyDict ⟨_, hsorted⟩ ⟨ps, hps⟩) ⟨ps, hps⟩ =
        applyDict ⟨_, hsorted⟩ ⟨ps, hps⟩ := by
      refine ext_get fun key => ?_
      rw [get_applyDict, get_applyDict]
      cases hv : get ⟨ps, hps⟩ key with
      | none => rfl
      | some v =>
        rw [patched, patched]
        split_ifs
        · rfl
        · refine congrArg some (ih _ (mem_of_find_eq_some hv) fun w hw => ?_)
          exact hmembers _ (mem_of_find_eq_some hw)
    simpa [apply, Directory.membersOf, applyDict] using hd

/-- What is found below a value along member names. -/
def reach : List Text → Value → Option Value
  | [], v => some v
  | key :: keys, v => (find key (membersOf (some v))).bind (reach keys)

/-- The patch goes along the member names only through objects and does not have the last one it
comes to. -/
def Unnamed : List Text → Value → Prop
  | key :: keys, .obj ps => ∀ v ∈ find key ps, Unnamed keys v
  | _, _ => False

/-- **What the patch does not name stays.** -/
theorem reach_apply {path : List Text} {patch : Value} (hp : Mapped patch) (hu : Unnamed path patch)
    (target : Option Value) : reach path (apply target patch) = target.bind (reach path) := by
  induction path generalizing patch target with
  | nil => exact hu.elim
  | cons key keys ih =>
    cases hp with
    | other h =>
      cases patch with
      | obj ps => exact absurd rfl (h ps)
      | _ => exact hu.elim
    | @obj ps sorted members =>
      have htarget : target.bind (reach (key :: keys)) =
          (find key (membersOf target)).bind (reach keys) := by
        cases target <;> rfl
      rw [htarget, apply, reach, Directory.membersOf, find_applyMembers key ps _ sorted]
      cases hv : find key ps with
      | none => rfl
      | some v =>
        have hnamed := hu v hv
        have hnull : v ≠ .null := by
          rintro rfl
          cases keys <;> exact hnamed
        rw [patched, if_neg hnull]
        exact ih (members _ (mem_of_find_eq_some hv)) hnamed _

end Rfc7396

/-! ## What the directory does -/

namespace MergePatch

/-- `max_depth` and `max_nodes`. -/
structure Bounds where
  maxDepth : Nat
  maxNodes : Nat

/-- The defaults of the options. -/
def Bounds.default : Bounds := ⟨64, 100000⟩

def pointer (path key : Text) : Text :=
  if path = [] then '/' :: ThingDescription.pointerSegment key
  else if key = [] then path
  else path ++ '/' :: ThingDescription.pointerSegment key

/-- `refuse/2`. -/
def refusal (path : Text) (reason : Reason) : Error where
  code := .invalidRequest
  phase := .patch
  operation := .patch
  path := some (if path = [] then "/" else path)
  reason := some reason

section

variable (l : Bounds)

/-- The first two clauses of `validate_json/6`. -/
def enter (path : Text) (depth nodes : Nat) : Result Unit := do
  check (depth ≤ l.maxDepth) (refusal path .maxDepthExceeded)
  check (nodes < l.maxNodes) (refusal path .maxNodesExceeded)

mutual
/-- `validate_json/6`: the nodes counted so far. -/
def validateJson (path : Text) (depth nodes : Nat) : Value → Result Nat
  | .arr vs => do
    enter l path depth nodes
    validateItems path (depth + 1) 0 (nodes + 1) vs
  | .obj ms => do
    enter l path depth nodes
    validateMembers path (depth + 1) (nodes + 1) ms
  | _ => do
    enter l path depth nodes
    .ok (nodes + 1)

/-- The items of an array, with their indices. -/
def validateItems (path : Text) (depth index nodes : Nat) : List Value → Result Nat
  | [] => .ok nodes
  | v :: vs => do
    let count ← validateJson (pointer path (Json.decimal index)) depth nodes v
    validateItems path depth (index + 1) count vs

/-- The members of an object, in key order. -/
def validateMembers (path : Text) (depth nodes : Nat) : List (Text × Value) → Result Nat
  | [] => .ok nodes
  | (key, v) :: ms => do
    let count ← validateJson (pointer path key) depth nodes v
    validateMembers path depth count ms
end

mutual
/-- A member of the patch that is not `nil`: an object is merged by `merge/5`, anything else is the
new value. -/
def mergeValue (path : Text) (depth : Nat) (target : Option Value) : Value → Result Value
  | .obj ps => do
    check (depth ≤ l.maxDepth) (refusal path .maxDepthExceeded)
    let merged ← mergeMembers path depth (membersOf target) ps
    .ok (.obj merged)
  | v => .ok v

/-- The reduction of `merge/5` over the members of the patch. -/
def mergeMembers (path : Text) (depth : Nat) (result : List (Text × Value)) :
    List (Text × Value) → Result (List (Text × Value))
  | [] => .ok result
  | (key, v) :: ps =>
    if v = .null then mergeMembers path depth (drop key result) ps
    else do
      let merged ← mergeValue (pointer path key) (depth + 1) (find key result) v
      mergeMembers path depth (put key merged result) ps
end

end

/-- `apply/3`, on the members of the target and of the patch. -/
def apply (l : Bounds) (target patch : List (Text × Value)) : Result (List (Text × Value)) := do
  check (0 < l.maxDepth) (refusal "/" .invalidJsonValue)
  check (0 < l.maxNodes) (refusal "/" .invalidJsonValue)
  let _ ← validateJson l [] 0 0 (.obj patch)
  mergeMembers l [] 0 target patch

/-! ## The bounded merge is the merge of the RFC -/

mutual
/-- How far a term is nested; a term without items or members is not. -/
def depth : Value → Nat
  | .arr vs => depthItems vs
  | .obj ms => depthMembers ms
  | _ => 0

/-- How far the items of an array nest it. -/
def depthItems : List Value → Nat
  | [] => 0
  | v :: vs => max (depth v + 1) (depthItems vs)

/-- How far the members of an object nest it. -/
def depthMembers : List (Text × Value) → Nat
  | [] => 0
  | (_, v) :: ms => max (depth v + 1) (depthMembers ms)
end

/-- The limits are valid and the patch is within them. -/
def Within (l : Bounds) (patch : List (Text × Value)) : Prop :=
  0 < l.maxDepth ∧ depthMembers patch ≤ l.maxDepth ∧ Value.nodesMembers patch + 1 ≤ l.maxNodes

variable {l : Bounds}

theorem enter_eq_ok {path : Text} {at_ nodes : Nat} {u : Unit} :
    enter l path at_ nodes = .ok u ↔ at_ ≤ l.maxDepth ∧ nodes < l.maxNodes := by
  simp [enter]

mutual
/-- **What the validation accepts**, and the count it returns. -/
theorem validateJson_eq_ok : ∀ (v : Value) {path : Text} {at_ nodes n : Nat},
    validateJson l path at_ nodes v = .ok n ↔
      at_ + depth v ≤ l.maxDepth ∧ nodes + v.nodes ≤ l.maxNodes ∧ n = nodes + v.nodes
  | .arr vs, path, at_, nodes, n => by
    simp only [validateJson, bind_eq_ok, exists_unit, enter_eq_ok, depth, Value.nodes]
    constructor
    · rintro ⟨⟨hd, hn⟩, h⟩
      have := (validateItems_eq_ok vs hd hn).mp h
      omega
    · intro h
      exact ⟨by omega, (validateItems_eq_ok vs (by omega) (by omega)).mpr (by omega)⟩
  | .obj ms, path, at_, nodes, n => by
    simp only [validateJson, bind_eq_ok, exists_unit, enter_eq_ok, depth, Value.nodes]
    constructor
    · rintro ⟨⟨hd, hn⟩, h⟩
      have := (validateMembers_eq_ok ms hd hn).mp h
      omega
    · intro h
      exact ⟨by omega, (validateMembers_eq_ok ms (by omega) (by omega)).mpr (by omega)⟩
  | .null, _, _, _, _ | .bool _, _, _, _, _ | .num _, _, _, _, _ | .str _, _, _, _, _ => by
    simp only [validateJson, bind_eq_ok, exists_unit, enter_eq_ok, depth, Value.nodes, Outcome.ok.injEq]
    omega

theorem validateItems_eq_ok : ∀ (vs : List Value) {path : Text} {at_ index nodes n : Nat},
    at_ ≤ l.maxDepth → nodes ≤ l.maxNodes →
      (validateItems l path (at_ + 1) index nodes vs = .ok n ↔ at_ + depthItems vs ≤ l.maxDepth ∧
        nodes + Value.nodesItems vs ≤ l.maxNodes ∧ n = nodes + Value.nodesItems vs)
  | [], _, _, _, _, _, hd, hn => by
    simp only [validateItems, depthItems, Value.nodesItems, Outcome.ok.injEq]
    omega
  | v :: vs, path, at_, index, nodes, n, hd, hn => by
    simp only [validateItems, bind_eq_ok, validateJson_eq_ok v, depthItems, Value.nodesItems]
    constructor
    · rintro ⟨count, hv, h⟩
      have := (validateItems_eq_ok vs hd (by omega)).mp h
      omega
    · intro h
      exact ⟨_, ⟨by omega, by omega, rfl⟩, (validateItems_eq_ok vs hd (by omega)).mpr (by omega)⟩

theorem validateMembers_eq_ok : ∀ (ms : List (Text × Value)) {path : Text} {at_ nodes n : Nat},
    at_ ≤ l.maxDepth → nodes ≤ l.maxNodes →
      (validateMembers l path (at_ + 1) nodes ms = .ok n ↔ at_ + depthMembers ms ≤ l.maxDepth ∧
        nodes + Value.nodesMembers ms ≤ l.maxNodes ∧ n = nodes + Value.nodesMembers ms)
  | [], _, _, _, _, hd, hn => by
    simp only [validateMembers, depthMembers, Value.nodesMembers, Outcome.ok.injEq]
    omega
  | (key, v) :: ms, path, at_, nodes, n, hd, hn => by
    simp only [validateMembers, bind_eq_ok, validateJson_eq_ok v, depthMembers, Value.nodesMembers]
    constructor
    · rintro ⟨count, hv, h⟩
      have := (validateMembers_eq_ok ms hd (by omega)).mp h
      omega
    · intro h
      exact ⟨_, ⟨by omega, by omega, rfl⟩, (validateMembers_eq_ok ms hd (by omega)).mpr (by omega)⟩
end

mutual
/-- Within the depth the merge is that of the RFC: the second bound never refuses. -/
theorem mergeValue_eq_rfc : ∀ (v : Value) {path : Text} {at_ : Nat} {target : Option Value},
    at_ + depth v ≤ l.maxDepth → mergeValue l path at_ target v = .ok (Rfc7396.apply target v)
  | .obj ps, path, at_, target, h => by
    rw [mergeValue, Rfc7396.apply, check, if_pos (by omega), ok_bind, mergeMembers_eq_rfc ps h, ok_bind]
  | .null, _, _, _, _ | .bool _, _, _, _, _ | .num _, _, _, _, _ | .str _, _, _, _, _
  | .arr _, _, _, _, _ => by simp [mergeValue, Rfc7396.apply]

theorem mergeMembers_eq_rfc : ∀ (ps : List (Text × Value)) {path : Text} {at_ : Nat}
    {target : List (Text × Value)}, at_ + depthMembers ps ≤ l.maxDepth →
      mergeMembers l path at_ target ps = .ok (Rfc7396.applyMembers target ps)
  | [], _, _, _, _ => by simp [mergeMembers, Rfc7396.applyMembers]
  | (key, v) :: ps, path, at_, target, h => by
    rw [depthMembers] at h
    unfold mergeMembers Rfc7396.applyMembers
    split_ifs
    · exact mergeMembers_eq_rfc ps (by omega)
    · rw [mergeValue_eq_rfc v (by omega)]
      exact mergeMembers_eq_rfc ps (by omega)
end

variable {target patch r : List (Text × Value)}

/-- **A patch is accepted exactly within the limits, and does what RFC 7396 says.** -/
theorem apply_eq_ok : apply l target patch = .ok r ↔
    Within l patch ∧ r = Rfc7396.applyMembers target patch := by
  simp only [apply, bind_eq_ok, exists_unit, check_eq_ok, validateJson_eq_ok, depth, Nat.zero_add]
  constructor
  · rintro ⟨hd, -, n, ⟨hdepth, hnodes, -⟩, h⟩
    rw [mergeMembers_eq_rfc patch (by omega)] at h
    exact ⟨⟨hd, hdepth, hnodes⟩, (Outcome.ok.inj h).symm⟩
  · rintro ⟨⟨hd, hdepth, hnodes⟩, rfl⟩
    exact ⟨hd, by omega, _, ⟨hdepth, hnodes, rfl⟩, mergeMembers_eq_rfc patch (by omega)⟩

theorem apply_eq_rfc (h : apply l target patch = .ok r) : r = Rfc7396.applyMembers target patch :=
  (apply_eq_ok.mp h).2

/-- **Merge patches are those of RFC 7396**: what is accepted and returned; the merge of a validated
patch is not refused; a second application changes nothing; and at every level what the patch does not
name stays. -/
theorem apply_exact {target patch : List (Text × Value)} (ht : Rfc7396.Mapped (.obj target))
    (hp : Rfc7396.Mapped (.obj patch)) :
    (∀ r, apply l target patch = .ok r ↔ Within l patch ∧ r = Rfc7396.applyMembers target patch) ∧
    (∀ n, validateJson l [] 0 0 (.obj patch) = .ok n → ∃ r, mergeMembers l [] 0 target patch = .ok r) ∧
    ∀ r, apply l target patch = .ok r → apply l r patch = .ok r ∧
      ∀ path, Rfc7396.Unnamed path (.obj patch) →
        Rfc7396.reach path (.obj r) = Rfc7396.reach path (.obj target) := by
  refine ⟨fun r => apply_eq_ok, fun n hn => ?_, fun r h => ?_⟩
  · obtain ⟨hdepth, -⟩ := (validateJson_eq_ok _).mp hn
    exact ⟨_, mergeMembers_eq_rfc patch (by simpa [depth] using hdepth)⟩
  · obtain ⟨hw, rfl⟩ := apply_eq_ok.mp h
    have htarget : ∀ v ∈ some (Value.obj target), Rfc7396.Mapped v := by simpa using ht
    refine ⟨apply_eq_ok.mpr ⟨hw, ?_⟩, fun path hu => ?_⟩
    · simpa [Rfc7396.apply, membersOf] using (Rfc7396.apply_apply hp htarget).symm
    · simpa [Rfc7396.apply, membersOf] using Rfc7396.reach_apply hp hu (some (.obj target))

/-- A patch that sets and deletes members of a member. -/
def nested : List (Text × Value) := [("a", .obj [("b", .bool true), ("d", .null)])]

/-- What it is applied to; it does not name `e`. -/
def nestedTarget : List (Text × Value) :=
  [("a", .obj [("b", .bool false), ("d", .bool true)]), ("e", .bool true)]

def nestedMerged : List (Text × Value) := [("a", .obj [("b", .bool true)]), ("e", .bool true)]

theorem nested_exact :
    apply .default nestedTarget nested = .ok nestedMerged ∧
      apply .default nestedMerged nested = .ok nestedMerged ∧
      Rfc7396.reach ["e"] (.obj nestedMerged) = Rfc7396.reach ["e"] (.obj nestedTarget) := by
  have pair : ∀ v w : Value, (∀ ms, v ≠ .obj ms) → (∀ ms, w ≠ .obj ms) →
      Rfc7396.Mapped (.obj [("b", v), ("d", w)]) := by
    intro v w hv hw
    refine .obj (show [ascii "b", ascii "d"].Pairwise (· < ·) by decide) fun m hm => ?_
    obtain rfl | rfl := List.mem_pair.mp hm
    exacts [.other hv, .other hw]
  have hp : Rfc7396.Mapped (.obj nested) :=
    .obj (by decide) fun m hm => List.mem_singleton.mp hm ▸ pair _ _ (by simp) (by simp)
  have ht : Rfc7396.Mapped (.obj nestedTarget) := by
    refine .obj (by decide) fun m hm => ?_
    obtain rfl | rfl := List.mem_pair.mp hm
    exacts [pair _ _ (by simp) (by simp), .other (by simp)]
  obtain ⟨hexact, -, htwice⟩ := apply_exact (l := .default) ht hp
  have h : apply .default nestedTarget nested = .ok nestedMerged :=
    (hexact nestedMerged).mpr ⟨by unfold Within; decide, by decide⟩
  exact ⟨h, (htwice _ h).1, (htwice _ h).2 ["e"] fun v hv => by cases hv⟩

/-- `apply/3` on maps. -/
def applyDict (l : Bounds) (target patch : Dict Value) : Result (Dict Value) :=
  match h : apply l target.entries patch.entries with
  | .ok r => .ok ⟨r, by
      rw [apply_eq_rfc h]
      exact Rfc7396.sorted_applyMembers patch.entries target.sorted⟩
  | .refuse e => .refuse e
  | .raise => .raise

theorem applyDict_eq_rfc {target patch r : Dict Value} (h : applyDict l target patch = .ok r) :
    r = Rfc7396.applyDict target patch := by
  unfold applyDict at h
  split at h
  · rename_i ms hms
    cases h
    simp [Rfc7396.applyDict, apply_eq_rfc hms]
  · exact absurd h (by simp)
  · exact absurd h (by simp)

end MergePatch

end Wotex.Directory
