import Wotex.Routines.Compiled

/-!
# Predicates and their code (`expansion.ex`, `predicate_machine.ex`, `truth.ex`)

`Predicate.eval` evaluates a predicate along its tree. The compiler emits postfix code for a stack
machine; both answer the same and refuse the same (`run_compiled`). For any code at all, a reading that
becomes known may settle an unknown answer and reverses none (`run_informed`).
-/

namespace Wotex.Routines

open List

/-! ## Compiled code -/

section

variable (host : Host) (env : Expansion.Env) (values : Values)

mutual
/-- The truth of a predicate at the readings, none where a combination is refused. -/
def Predicate.eval : Predicate → Option Truth
  | .literal t => some t
  | .compare op binding value => do
    let r ← env.installed.bindings.get binding
    let v ← (Expansion.typedArgument host env r.basis.value value).toOption
    some (PredicateMachine.compare op (values.get binding).join (v.map Num.int))
  | .not arg => arg.eval.map Truth.negate
  | .combine op args => do
    let truths ← Predicate.evalList args
    (Truth.combine host op truths env.profile env.limits).toOption

/-- The truths of several predicates, the last first, as they lie on the stack. -/
def Predicate.evalList : List Predicate → Option (List Truth)
  | [] => some []
  | q :: qs => do
    let t ← q.eval
    let ts ← Predicate.evalList qs
    some (ts ++ [t])
end

/-- The machine on emitted code. -/
def Expansion.exec (code : List (Instr Int)) (stack : List Truth) : Option (List Truth) :=
  (code.map (Instr.map Num.int)).foldlM
    (fun stack i => PredicateMachine.instruction host values env.profile env.limits i stack) stack

end

variable {host : Host} {env : Expansion.Env} {values : Values}

namespace Expansion

theorem exec_append (code rest : List (Instr Int)) (stack : List Truth) :
    exec host env values (code ++ rest) stack
      = (exec host env values code stack).bind (exec host env values rest) := by
  rw [exec, map_append, foldlM_append]
  rfl

/-- A combination takes its arguments off the stack. Without any it is refused, as by `combine/4`. -/
theorem exec_combine (op : Connective) (ts stack : List Truth) :
    exec host env values [.combine op ts.length] (ts ++ stack)
      = (Truth.combine host op ts env.profile env.limits).toOption.map (· :: stack) := by
  simp only [exec, Instr.map, map_cons, map_nil, foldlM_cons, foldlM_nil, bind_pure,
    PredicateMachine.instruction]
  cases ts with
  | nil =>
    have hnone : (Truth.combine host op [] env.profile env.limits).toOption = none := by
      simp [Option.eq_none_iff_forall_ne_some, Truth.combine]
    simp [hnone]
  | cons t ts => rw [if_pos ⟨by simp, by simp⟩, Int.toNat_natCast, take_left, drop_left]

mutual
/-- The code of a predicate pushes its truth. -/
theorem predicate_pushes : ∀ {q : Predicate} {c : Count} {code : List (Instr Int)} {c' : Count},
    predicate host env q c = .ok (code, c') → ∀ stack,
      exec host env values code stack = (q.eval host env values).map (· :: stack)
  | q, c, code, c', h, stack => by
    rw [predicate] at h
    simp only [bind_eq_ok] at h
    obtain ⟨_, -, h⟩ := h
    cases q with
    | literal =>
      cases h
      rfl
    | compare _ binding =>
      cases hb : env.installed.bindings.get binding with
      | none => simp [hb] at h
      | some r =>
        simp only [hb, bind_eq_ok, exists_unit] at h
        obtain ⟨-, -, v, hv, -, ⟨⟩⟩ := h
        simp [exec, Instr.map, PredicateMachine.instruction, Predicate.eval, hb, hv, Outcome.toOption]
    | not arg =>
      simp only [bind_eq_ok, Prod.exists] at h
      obtain ⟨rest, _, hrest, ⟨⟩⟩ := h
      rw [exec_append, predicate_pushes hrest, Predicate.eval]
      cases arg.eval host env values <;> rfl
    | combine op args =>
      simp only [bind_eq_ok, Prod.exists] at h
      obtain ⟨rest, _, hrest, ⟨⟩⟩ := h
      obtain ⟨hpush, hlen⟩ := predicates_push hrest stack
      rw [exec_append, hpush, Predicate.eval]
      cases hts : Predicate.evalList host env values args with
      | none => rfl
      | some ts =>
        rw [← hlen ts hts]
        exact exec_combine op ts stack

theorem predicates_push : ∀ {qs : List Predicate} {c : Count} {code : List (Instr Int)} {c' : Count},
    predicates host env qs c = .ok (code, c') → ∀ stack,
      exec host env values code stack = (Predicate.evalList host env values qs).map (· ++ stack) ∧
      ∀ ts, Predicate.evalList host env values qs = some ts → ts.length = qs.length
  | [], _, _, _, h, _ => by
    cases h
    exact ⟨rfl, by rintro _ ⟨⟩; rfl⟩
  | q :: qs, _, _, _, h, stack => by
    simp only [predicates, bind_eq_ok, Prod.exists] at h
    obtain ⟨first, _, hfirst, rest, _, hrest, ⟨⟩⟩ := h
    rw [exec_append, predicate_pushes hfirst, Predicate.evalList]
    cases q.eval host env values with
    | none => simp
    | some t =>
      obtain ⟨hpush, hlen⟩ := predicates_push hrest (t :: stack)
      cases hts : Predicate.evalList host env values qs with
      | none => simpa [hts] using hpush
      | some ts => simp [hpush, hts, hlen ts hts]
end

/-- **Compiling keeps the meaning of a predicate**, its refusals included. -/
theorem run_compiled {q : Predicate} {c c' : Count} {code : List (Instr Int)} (hc : 0 ≤ c.predicates)
    (h : predicate host env q c = .ok (code, c')) (values : Values) :
    PredicateMachine.run host (code.map (Instr.map Num.int)) values env.profile env.limits
      = (q.eval host env values).elim (refusal .invalidPredicateProgram) .ok := by
  have hrun : exec host env values code [] = _ := predicate_pushes h []
  have hne : code ≠ [] := by
    rintro rfl
    cases he : q.eval host env values <;> simp [exec] at hrun
  have hle := (predicate_charged h).2
  rw [exec] at hrun
  simp only [PredicateMachine.run, hrun, length_map, isEmpty_map]
  rw [show (!code.isEmpty && decide ((code.length : Int) ≤ env.profile.predicateNodes)) = true by
    simp [hne]; omega]
  cases q.eval host env values <;> rfl

end Expansion

/-- The scope of the lamp's source. -/
def lampEnv : Expansion.Env where
  installed := ⟨lampContext, lampBindings, []⟩
  profile := lampProfile
  limits := lampLimits
  parameters := Dict.empty
  args := Dict.empty

/-- The lamp's level is above 4. -/
def lampBright : Predicate := .combine .any [.compare .gt "x" (.scalar (.num 4)), .literal .no]

/-- The level is 5. -/
def lampReadings : Values := ⟨[("x", some (.num 5))], by decide⟩

theorem lampBright_compiled : ∃ code c',
    Expansion.predicate lampHost lampEnv lampBright {} = .ok (code, c') ∧ PredicateMachine.run lampHost
      (code.map (Instr.map Num.int)) lampReadings lampProfile lampLimits = .ok .yes := by
  have h : (Expansion.predicate lampHost lampEnv lampBright {}).toOption.isSome = true := by decide +kernel
  obtain ⟨⟨code, c'⟩, h⟩ := Option.isSome_iff_exists.mp h
  rw [Outcome.toOption_eq_some] at h
  have he : lampBright.eval lampHost lampEnv lampReadings = some .yes := by decide +kernel
  exact ⟨code, c', h, (Expansion.run_compiled le_rfl h _).trans (by rw [he]; rfl)⟩

/-! ## Knowing more -/

/-- The second truth is the first one, or the first one is unknown. -/
def Truth.Below (t u : Truth) : Prop := t = .unknown ∨ t = u

/-- What the first readings know the second ones know as well. -/
def Values.Below (v w : Values) : Prop :=
  ∀ binding x, (v.get binding).join = some x → (w.get binding).join = some x

theorem Truth.result_below (op : Connective) {ts us : List Truth} (h : Forall₂ Below ts us) :
    (result op ts).Below (result op us) := by
  have known : (∀ t ≠ .unknown, t ∈ ts → t ∈ us) ∧ (.unknown ∉ ts → ts = us) := by
    induction h with
    | nil => simp
    | cons h _ ih =>
      rcases h with rfl | rfl
      · exact ⟨fun t ht hm => mem_cons_of_mem _ (ih.1 t ht (by simpa [ht] using hm)), by simp⟩
      · exact ⟨fun t ht => by simpa using Or.imp_right (ih.1 t ht), by simpa using fun _ => ih.2⟩
  by_cases hu : .unknown ∈ ts
  · -- the deciding truth, where it is an argument, is one on both sides
    cases op
    all_goals
      simp only [result]
      split_ifs with h₁ h₂
      all_goals first | exact .inl rfl | exact .inr rfl | exact absurd (known.1 _ (by decide) h₁) h₂
  · exact .inr (by rw [known.2 hu])

namespace PredicateMachine

variable {v w : Values} {p : Profile} {l : Limits} {ts us ts' us' : List Truth} {t u : Truth}

theorem instruction_below (h : v.Below w) {i : Instr Num} (hs : Forall₂ Truth.Below ts us)
    (hi : instruction host v p l i ts = some ts') (hi' : instruction host w p l i us = some us') :
    Forall₂ Truth.Below ts' us' := by
  cases i with
  | literal t =>
    cases hi
    cases hi'
    exact .cons (.inr rfl) hs
  | compare op binding expected =>
    cases hi
    cases hi'
    refine .cons ?_ hs
    cases hx : (v.get binding).join with
    | none => exact .inl (by cases op <;> rfl)
    | some x => exact .inr (by rw [h binding x hx])
  | not =>
    cases hs with
    | nil => cases hi
    | cons ht hs =>
      cases hi
      cases hi'
      exact .cons (ht.imp (by rintro rfl; rfl) (congrArg _)) hs
  | combine op count =>
    cases count with
    | flt => simp [instruction] at hi
    | int count =>
      simp only [instruction, Option.ite_none_right_eq_some, Option.map_eq_some_iff, Outcome.toOption_eq_some,
        Truth.combine, bind_eq_ok] at hi hi'
      obtain ⟨-, _, ⟨_, -, _, -, _, -, ⟨⟩⟩, rfl⟩ := hi
      obtain ⟨-, _, ⟨_, -, _, -, _, -, ⟨⟩⟩, rfl⟩ := hi'
      exact .cons (Truth.result_below op (forall₂_take _ hs)) (forall₂_drop _ hs)

theorem run_eq_ok {code : List (Instr Num)} (h : run host code v p l = .ok t) :
    code.foldlM (fun stack i => instruction host v p l i stack) [] = some [t] := by
  simp only [run, bind_eq_ok] at h
  obtain ⟨_, -, h⟩ := h
  split at h
  · cases h
    assumption
  · simp [refusal] at h

/-- **Knowing more never reverses an answer.** -/
theorem run_informed {code : List (Instr Num)} (h : v.Below w) (ht : run host code v p l = .ok t)
    (hu : run host code w p l = .ok u) : t.Below u := by
  have fold : ∀ {ts us : List Truth}, Forall₂ Truth.Below ts us →
      code.foldlM (fun stack i => instruction host v p l i stack) ts = some [t] →
      code.foldlM (fun stack i => instruction host w p l i stack) us = some [u] → t.Below u := by
    clear ht hu
    induction code with
    | nil =>
      rintro _ _ hs ⟨⟩ ⟨⟩
      exact (forall₂_cons.mp hs).1
    | cons i code ih =>
      intro ts us hs hv hw
      simp only [foldlM_cons, Option.bind_eq_bind, Option.bind_eq_some_iff] at hv hw
      obtain ⟨_, hi, hv⟩ := hv
      obtain ⟨_, hi', hw⟩ := hw
      exact ih (instruction_below h hs hi hi') hv hw
  exact fold .nil (run_eq_ok ht) (run_eq_ok hu)

theorem lamp_informed : run lampHost [.compare .gt "x" (.num (.int 4))] Dict.empty lampProfile lampLimits
      = .ok .unknown ∧ Truth.Below .unknown .yes := by
  have h : run lampHost [.compare .gt "x" (.num (.int 4))] Dict.empty lampProfile lampLimits
      = .ok .unknown := rfl
  exact ⟨h, run_informed (w := lampReadings) (by rintro _ _ ⟨⟩) h rfl⟩

end PredicateMachine

end Wotex.Routines
