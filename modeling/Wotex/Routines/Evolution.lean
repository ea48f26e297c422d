import Wotex.Routines.Retained
import Wotex.Routines.Kernel
import Wotex.Term.Pairs

/-!
# How records change

What one call may do to a record is said once. The walk of the tree (`Walked`) keeps a record's
identity and receipts, enters its start and its branch at most once, and never makes it unsent
again; its proposals come in the order of the tree, each of a record that was unsent before and is not
any more (`Walks`). A whole call may also fill empty receipt slots (`Evolves`).
-/

namespace Wotex.Routines

open List StepRecord

/-! ## Records -/

/-- What a call may do to a record: a filled receipt slot, a start and a branch stay, and a record that
is not unsent never becomes unsent. -/
structure StepRecord.Evolves (s s' : StepRecord) : Prop where
  path : s'.path = s.path
  original : s'.original = s.original
  kind : s'.kind = s.kind
  receipts : ∀ slot x, s.receipts.get slot = some x → s'.receipts.get slot = some x
  started : ∀ t, s.startedMs = some t → s'.startedMs = some t
  branch : ∀ b, s.branch = some b → s'.branch = some b
  sent : s'.status = .unsent → s.status = .unsent

/-- What the walk may do to a record: a whole call may also file receipts. -/
structure StepRecord.Walked (s s' : StepRecord) : Prop extends s.Evolves s' where
  filed : s'.receipts = s.receipts

namespace StepRecord

theorem Evolves.trans {a b c : StepRecord} (h : a.Evolves b) (h' : b.Evolves c) : a.Evolves c where
  path := h'.path.trans h.path
  original := h'.original.trans h.original
  kind := h'.kind.trans h.kind
  receipts slot x hx := h'.receipts slot x (h.receipts slot x hx)
  started t ht := h'.started t (h.started t ht)
  branch x hx := h'.branch x (h.branch x hx)
  sent hs := h.sent (h'.sent hs)

namespace Walked

theorem trans {a b c : StepRecord} (h : a.Walked b) (h' : b.Walked c) : a.Walked c :=
  ⟨h.toEvolves.trans h'.toEvolves, h'.filed.trans h.filed⟩

variable (s : StepRecord)

theorem refl : s.Walked s :=
  ⟨⟨rfl, rfl, rfl, fun _ _ h => h, fun _ h => h, fun _ h => h, id⟩, rfl⟩

theorem status {x : StepStatus} (hx : x ≠ .unsent) : s.Walked { s with status := x } :=
  ⟨{ refl s with sent h := absurd h hx }, rfl⟩

theorem deadline (d : Option Num) : s.Walked { s with deadlineMs := d } :=
  ⟨{ refl s with }, rfl⟩

theorem start (hs : s.startedMs = none) (t : Int) (d : Option Num) :
    s.Walked { s with startedMs := some t, deadlineMs := d } :=
  ⟨{ refl s with started _ h := by simp [hs] at h }, rfl⟩

theorem select (hs : s.branch = none) (b : Option Branch) : s.Walked { s with branch := b } :=
  ⟨{ refl s with branch _ h := by simp [hs] at h }, rfl⟩

end Walked

end StepRecord

/-! ## The walk -/

/-- What a proposal is of: its program and the path of its step. -/
def Proposal.place (x : Proposal) : Text × List Num := (x.programDigest, x.path)

/-- The places of nodes of a program. -/
def Program.places (p : Program) (ns : List (Node Num)) : List (Text × List Num) :=
  ns.map fun n => (p.irDigest, n.path)

namespace Execution

/-- What a stretch of the walk may do: it changes records as `Walked` allows and proposes records
that it sends, at some of the places and in their order. -/
structure Walks (places : List (Text × List Num)) (s s' : State) : Prop where
  absent : ∀ q, s.records q = none → s'.records q = none
  present : ∀ q r, s.records q = some r → ∃ r', s'.records q = some r' ∧ r.Walked r'
  proposals : ∃ xs, s'.proposals = xs ++ s.proposals ∧ (xs.reverse.map Proposal.place).Sublist places
    ∧ ∀ x ∈ xs, ∃ r r', s.records x.path = some r ∧ r.status = .unsent
      ∧ s'.records x.path = some r' ∧ r'.status ≠ .unsent ∧ x.stepOriginal = r.original

variable {places places' : List (Text × List Num)}

namespace Walks

theorem refl (s : State) : Walks places s s :=
  ⟨fun _ h => h, fun _ r h => ⟨r, h, .refl r⟩, [], rfl, nil_sublist _, by simp⟩

theorem trans {a b c : State} (h : Walks places a b) (h' : Walks places' b c) :
    Walks (places ++ places') a c where
  absent q hq := h'.absent q (h.absent q hq)
  present q r hr := by
    obtain ⟨r', hr', hw⟩ := h.present q r hr
    obtain ⟨r'', hr'', hw'⟩ := h'.present q r' hr'
    exact ⟨r'', hr'', hw.trans hw'⟩
  proposals := by
    obtain ⟨xs, hxs, hsx, hx⟩ := h.proposals
    obtain ⟨ys, hys, hsy, hy⟩ := h'.proposals
    refine ⟨ys ++ xs, by rw [hys, hxs, append_assoc], ?_, fun z hz => ?_⟩
    · rw [reverse_append, map_append]
      exact hsx.append hsy
    rcases mem_append.mp hz with hz | hz
    · obtain ⟨r, r', hr, hu, hr', hs, ho⟩ := hy z hz
      cases ha : a.records z.path with
      | none => simp [h.absent _ ha] at hr
      | some r₀ =>
        obtain ⟨r₁, hr₁, hw⟩ := h.present _ _ ha
        obtain rfl := Option.some.inj (hr₁.symm.trans hr)
        exact ⟨r₀, r', rfl, hw.sent hu, hr', hs, ho.trans hw.original⟩
    · obtain ⟨r, r', hr, hu, hr', hs, ho⟩ := hx z hz
      obtain ⟨r'', hr'', hw⟩ := h'.present _ _ hr'
      exact ⟨r, r'', hr, hu, hr'', fun e => hs (hw.sent e), ho⟩

theorem mono {s s' : State} (h : Walks places s s') (hsub : places.Sublist places') : Walks places' s s' :=
  { h with proposals := h.proposals.imp fun _ hx => ⟨hx.1, hx.2.1.trans hsub, hx.2.2⟩ }

/-- A stretch and what it leaves at its own record. -/
theorem joined {a b c : State} (h : Walks places a b) (h' : Walks [] b c)
    (hsub : places.Sublist places') : Walks places' a c :=
  (h.trans h').mono (by rwa [append_nil])

variable (s : State) (path : List Num)

theorem modify (f : StepRecord → StepRecord)
    (hf : ∀ r, s.records path = some r → r.Walked (f r)) : Walks places s (s.modify path f) where
  absent q hq := by
    simp only [State.modify]
    split <;> simp [hq]
  present q r hr := by
    by_cases hq : q = path
    · subst hq
      exact ⟨f r, by simp [State.modify, hr], hf r hr⟩
    · exact ⟨r, by simp [State.modify, hq, hr], .refl r⟩
  proposals := ⟨[], rfl, nil_sublist _, by simp⟩

theorem setStatus {x : StepStatus} (hx : x ≠ .unsent) : Walks places s (s.setStatus path x) :=
  modify s path _ fun r _ => .status r hx

theorem block (s : State) : Walks places s s.block := { refl s with }

end Walks

theorem join_walks (path : List Num) (children : List (Node Num)) (s : State) :
    Walks places s (join path children s) := by
  refine .setStatus s path ?_
  unfold joinStatus
  repeat' split
  all_goals simp

variable {env : Env} {s s' : State} {path : List Num}

variable {node : Node Num} {deadline : Num}

theorem start_walks {r : StepRecord}
    (hr : s.records node.path = some r) (h : start env node deadline r s = .ok s') :
    Walks places s s' := by
  unfold start at h
  cases hs : r.startedMs with
  | some t =>
    rw [hs] at h
    cases h
    exact .refl s
  | none =>
    simp only [hs, bind_eq_ok] at h
    obtain ⟨d, -, ⟨⟩⟩ := h
    refine Walks.modify s _ _ fun r' hr' => ?_
    obtain rfl := Option.some.inj (hr.symm.trans hr')
    exact .start r hs _ _

theorem visitWith_walks {execute : State → Checked State}
    (he : ∀ s₁, execute s₁ = .ok s' → Walks places s₁ s') :
    visitWith env node deadline s execute = .ok s' → Walks places s s' := by
  fun_cases visitWith env node deadline s execute
  · nofun
  · rintro ⟨⟩
    exact .refl s
  · rintro ⟨⟩
    exact .setStatus s _ (by decide)
  · rename_i r hr _ _
    simp only [bind_eq_ok]
    rintro ⟨s₁, hs₁, hs'⟩
    have hstart : Walks [] s s₁ := start_walks hr hs₁
    exact hstart.trans (he s₁ hs')

theorem propose_walks {e : EffectNode Num} :
    propose env e s = .ok s' → Walks [(env.program.irDigest, e.path)] s s' := by
  fun_cases propose env e s
  · nofun
  · rename_i r hr hu
    simp only [bind_eq_ok, Outcome.ok.injEq]
    rintro ⟨x, hx, rfl⟩
    obtain ⟨hplace, ho⟩ : x.place = (env.program.irDigest, e.path) ∧ x.stepOriginal = r.original := by
      unfold Proposal.fromStep at hx
      split at hx <;> cases hx
      exact ⟨rfl, rfl⟩
    have hp : x.path = e.path := congrArg Prod.snd hplace
    have hw : Walks [] s _ := .setStatus s e.path (x := .proposed) (by decide)
    refine ⟨hw.absent, hw.present, [x], rfl, by simp [hplace], forall_mem_singleton.mpr ?_⟩
    refine ⟨r, { r with status := .proposed }, hp ▸ hr, hu, ?_, by simp, ho⟩
    simp [State.setStatus, State.modify, hp, hr]
  · rintro ⟨⟩
    exact .refl s

theorem select_walks {code : List (Instr Num)}
    (h : select env path code s = .ok s') : Walks places s s' := by
  unfold select at h
  split at h
  · cases h
    exact .refl s
  · rename_i hb
    obtain ⟨t, -, ⟨⟩⟩ := bind_eq_ok.mp h
    refine Walks.modify s _ _ fun r hr => ?_
    rw [hr] at hb
    exact .select r hb _

theorem await_walks {code : List (Instr Num)} {inherited timeoutMs : Num}
    (h : await env path code inherited timeoutMs s = .ok s') : Walks places s s' := by
  simp only [await, bind_eq_ok] at h
  obtain ⟨d, -, h⟩ := h
  have hd : Walks [] s _ :=
    .modify s path (fun r => { r with deadlineMs := some d }) fun r _ => .deadline r _
  split at h
  · cases h
    exact hd.trans (.setStatus _ _ (by decide))
  · obtain ⟨t, -, ⟨⟩⟩ := bind_eq_ok.mp h
    exact hd.trans (.setStatus _ _ (by split <;> decide))

theorem delay_walks {durationMs : Num} (h : delay env path durationMs s = .ok s') : Walks places s s' := by
  unfold delay at h
  split at h
  · simp at h
  · cases h
    exact .setStatus _ _ (by split <;> decide)

mutual
/-- **One visit.** The cases follow the node kinds. -/
theorem visit_walks : ∀ {n : Node Num} {deadline : Num} {s s' : State},
    visit env n deadline s = .ok s' → Walks (env.program.places n.nodes) s s'
  | .noop _ path, deadline, s, s', h => by
    refine visitWith_walks (fun s₁ h₁ => ?_) h
    cases h₁
    exact .setStatus _ _ (by decide)
  | .effect e, deadline, s, s', h => visitWith_walks (fun s₁ h₁ => propose_walks h₁) h
  | .sequence _ path steps, deadline, s, s', h => by
    refine visitWith_walks (fun s₁ h₁ => ?_) h
    obtain ⟨s₂, h₂, ⟨⟩⟩ := bind_eq_ok.mp h₁
    exact (sequence_walks h₂).joined (join_walks _ _ _) (sublist_cons_self _ _)
  | .parallel _ path branches, deadline, s, s', h => by
    refine visitWith_walks (fun s₁ h₁ => ?_) h
    obtain ⟨s₂, h₂, ⟨⟩⟩ := bind_eq_ok.mp h₁
    exact (parallel_walks h₂).joined (join_walks _ _ _) (sublist_cons_self _ _)
  | .ite _ path code yes no, deadline, s, s', h => by
    refine visitWith_walks (fun s₁ h₁ => ?_) h
    obtain ⟨s₂, h₂, h₃⟩ := bind_eq_ok.mp h₁
    have hselect : Walks [] s₁ s₂ := select_walks h₂
    split at h₃
    · cases h₃
      exact hselect.trans (.block s₂)
    · obtain ⟨s₄, h₄, ⟨⟩⟩ := bind_eq_ok.mp h₃
      exact (hselect.trans (visit_walks h₄)).joined (join_walks _ _ _)
        (((sublist_append_left _ _).cons _).map _)
    · obtain ⟨s₄, h₄, ⟨⟩⟩ := bind_eq_ok.mp h₃
      exact (hselect.trans (visit_walks h₄)).joined (join_walks _ _ _)
        (((sublist_append_right _ _).cons _).map _)
  | .wait _ path code timeoutMs, deadline, s, s', h => visitWith_walks (fun s₁ h₁ => await_walks h₁) h
  | .delay _ path durationMs, deadline, s, s', h => visitWith_walks (fun s₁ h₁ => delay_walks h₁) h
  | .invoke i code body, deadline, s, s', h => by
    refine visitWith_walks (fun s₁ h₁ => ?_) h
    simp only [bind_eq_ok] at h₁
    obtain ⟨d, -, t, -, h₂⟩ := h₁
    have hd : Walks [] s₁ _ :=
      .modify s₁ i.path (fun r => { r with deadlineMs := some d }) fun r _ => .deadline r _
    split at h₂
    · simp only [bind_eq_ok, Outcome.ok.injEq] at h₂
      obtain ⟨s₂, h₂, rfl⟩ := h₂
      exact (hd.trans (visit_walks h₂)).joined (join_walks _ _ _) (sublist_cons_self _ _)
    · cases h₂
      exact (hd.trans (.block _)).joined (join_walks _ _ _) (nil_sublist _)

theorem sequence_walks : ∀ {ns : List (Node Num)} {deadline : Num} {s s' : State},
    sequence env ns deadline s = .ok s' → Walks (env.program.places (Node.nodesList ns)) s s'
  | [], deadline, s, s', h => by
    cases h
    exact .refl s
  | n :: ns, deadline, s, s', h => by
    simp only [sequence, bind_eq_ok] at h
    obtain ⟨s₁, h₁, h₂⟩ := h
    rw [Node.nodesList, Program.places, map_append]
    refine (visit_walks h₁).trans ?_
    split at h₂
    · exact sequence_walks h₂
    · cases h₂
      exact .refl _

theorem parallel_walks : ∀ {ns : List (Node Num)} {deadline : Num} {s s' : State},
    parallel env ns deadline s = .ok s' → Walks (env.program.places (Node.nodesList ns)) s s'
  | [], deadline, s, s', h => by
    cases h
    exact .refl s
  | n :: ns, deadline, s, s', h => by
    simp only [parallel, bind_eq_ok] at h
    obtain ⟨s₁, h₁, h₂⟩ := h
    rw [Node.nodesList, Program.places, map_append]
    exact (visit_walks h₁).trans (parallel_walks h₂)
end

end Execution

/-! ## A whole call -/

variable {s : StepRecord}

namespace StepRecord

theorem stopRecord_walked (s : StepRecord) : s.Walked (Execution.stopRecord s) :=
  .status s (by cases s.status <;> simp [Execution.stopStatus])

namespace Evolves

theorem refl (s : StepRecord) : s.Evolves s := (Walked.refl s).toEvolves

theorem put (slot : Slot) (hs : s.receipts.get slot = none) (x : Receipt) {status : StepStatus}
    (hx : status = .unsent → s.status = .unsent) : s.Evolves (Receipt.put s slot x status) where
  path := rfl
  original := rfl
  kind := rfl
  started _ h := h
  branch _ h := h
  sent := hx
  receipts other y hy := by
    have hne : other ≠ slot := fun e => by simp [e ▸ hy] at hs
    exact (Receipts.get_set_of_ne _ _ hne).trans hy

end Evolves

end StepRecord

open StepRecord (Evolves)

theorem forall₂_evolves_trans {a b c : List StepRecord} (h : List.Forall₂ Evolves a b)
    (h' : List.Forall₂ Evolves b c) : List.Forall₂ Evolves a c :=
  forall₂_trans (fun _ _ _ hx hy => hx.trans hy) h h'

theorem forall₂_evolves_refl (a : List StepRecord) : List.Forall₂ Evolves a a :=
  forall₂_same.mpr fun s _ => .refl s

theorem spending_sublist {a b : List StepRecord} (h : List.Forall₂ Evolves a b) :
    (spending a).Sublist (spending b) := by
  induction h with
  | nil => exact List.Sublist.refl _
  | @cons s s' _ _ hx _ ih =>
    rw [spending, spending, flatMap_cons, flatMap_cons]
    refine List.Sublist.append ?_ ih
    split
    · rename_i ref d ha
      have hb : s'.receipts.admission = some ⟨ref, d, .held⟩ := hx.receipts .admission _ ha
      rw [hb, hx.original]
    · exact nil_sublist _

/-! ### Receipts and satisfaction -/

variable {host : Host} {p : Program} {r : Run} {event : Event} {l : Limits}

variable {path : List Int}

/-- With different path values, the step that is replaced is the one that was found. -/
theorem replaceStep_forall₂ {R : StepRecord → StepRecord → Prop} (hR : ∀ s, R s s)
    {steps : List StepRecord} (hn : (steps.map fun s => s.path.map Num.value).Nodup)
    (hs : findStep steps path = some s) {f : StepRecord → StepRecord} (hf : R s (f s)) :
    List.Forall₂ R steps (replaceStep steps path f) := by
  refine forall₂_map_self fun t ht => ?_
  split
  · rename_i hp
    have hq := find?_some hs
    have he : t = s := inj_on_of_nodup_map hn ht (mem_of_find?_eq_some hs)
      ((pathSame_iff.mp hp).trans (pathSame_iff.mp hq).symm)
    exact he ▸ hf
  · exact hR t

theorem replaceStep_self {steps : List StepRecord}
    (hn : (steps.map fun s => s.path.map Num.value).Nodup) (hs : findStep steps path = some s) :
    replaceStep steps path (fun _ => s) = steps := by
  have h := replaceStep_forall₂ (R := fun a b => a = b) (fun _ => rfl) hn hs (f := fun _ => s) rfl
  exact (forall₂_eq_eq_eq ▸ h : steps = _).symm

namespace Receipt

theorem resultStatus_ne_unsent (stage : Stage) (outcome : ResultOutcome)
    (node : Option (EffectNode Num)) (status : StepStatus)
    (h : resultStatus stage outcome node status = .unsent) : status = .unsent := by
  cases outcome with
  | accepted =>
    simp only [resultStatus] at h
    split at h
    · cases h
    · exact h
  | _ => cases h

variable {r' : StepRecord} {node : Option (EffectNode Num)} {x : Receipt} {a : Arrival}

/-- A result fills its own slot and, if it ends the step, the terminal slot, both empty before. -/
theorem freshResult_evolves {r : StepRecord} {stage : Stage} {outcome : ResultOutcome}
    {contract : Option Ref} (hs : r.receipts.get (.stage stage) = none)
    (h : freshResult r node stage outcome contract x = .ok r') : r.Evolves r' := by
  simp only [freshResult, bind_eq_ok, exists_unit, require_eq_ok, Bool.and_eq_true,
    Option.isNone_iff_eq_none] at h
  obtain ⟨⟨-, ht⟩, -, -, ⟨⟩⟩ := h
  have hp := Evolves.put (.stage stage) hs x (resultStatus_ne_unsent stage outcome node r.status)
  split
  · refine hp.trans (Evolves.put .terminal ?_ x id)
    exact (Receipts.get_set_of_ne _ _ (by simp)).trans ht
  · exact hp

theorem fresh_evolves {r : StepRecord} {kind : EventKind} (ha : arrival kind = some a)
    (hs : r.receipts.get a.slot = none) (h : fresh r node kind x = .ok r') : r.Evolves r' := by
  unfold fresh at h
  split at h
  · cases ha
    cases h
    exact .put _ hs x (by split <;> simp)
  · cases ha
    cases h
    exact .put _ hs x (by simp)
  · cases h
  · cases ha
    exact freshResult_evolves hs h
  · cases h

theorem update_evolves {r : StepRecord} {kind : EventKind} (ha : arrival kind = some a)
    (h : update r node kind a.slot x = .ok r') : r.Evolves r' := by
  unfold update at h
  split at h
  · rename_i hs
    exact fresh_evolves ha hs h
  · split at h
    · cases h
      exact .refl _
    · cases h

/-- What `Receipt.apply` does when it accepts an event with a receipt. -/
theorem apply_eq_ok {r' : Run} (ha : arrival event.kind = some a) :
    apply host r event p l = .ok r' ↔ ∃ s digest changed, findStep r.steps a.path = some s
      ∧ s.kind = .effect ∧ hash host event.data l = .ok digest
      ∧ update s (findEffect p a.path) event.kind a.slot ⟨a.ref, digest, a.outcome⟩ = .ok changed
      ∧ r' = { r with
          steps := replaceStep r.steps a.path fun _ => changed
          spent := spending (replaceStep r.steps a.path fun _ => changed) } := by
  unfold apply
  rw [ha]
  dsimp only
  cases hs : findStep r.steps a.path with
  | none => simp [refusal]
  | some s =>
    by_cases hk : s.kind = .effect
    · simp only [hk, if_true, bind_eq_ok, Outcome.ok.injEq, Option.some.injEq]
      constructor
      · rintro ⟨d, hd, c, hc, rfl⟩
        exact ⟨s, d, c, rfl, hk, hd, hc, rfl⟩
      · rintro ⟨_, d, c, rfl, -, hd, hc, rfl⟩
        exact ⟨d, hd, c, hc, rfl⟩
    · simp [hk, refusal]

theorem apply_evolves {r' : Run} (hn : (r.steps.map fun s => s.path.map Num.value).Nodup)
    (h : apply host r event p l = .ok r') :
    List.Forall₂ Evolves r.steps r'.steps ∧ r'.status = r.status ∧ r'.original = r.original := by
  cases ha : arrival event.kind with
  | none =>
    rw [apply, ha] at h
    cases h
    exact ⟨forall₂_evolves_refl _, rfl, rfl⟩
  | some a =>
    obtain ⟨s, d, changed, hs, -, -, hu, rfl⟩ := (apply_eq_ok ha).mp h
    exact ⟨replaceStep_forall₂ Evolves.refl hn hs (update_evolves ha hu), rfl, rfl⟩

end Receipt

namespace Satisfaction

theorem satisfy_evolves (hs : s.receipts.satisfied = none) (x : Receipt) : s.Evolves (satisfy x s) :=
  Evolves.put .satisfied hs x (by simp)

/-- An accepted satisfaction completes the step and fills its slot. -/
theorem apply_evolves {r' : Run} {ref factId : Text} {contract : Ref} {snapshot : Snapshot}
    {values : Values} {profile : Profile} (hn : (r.steps.map fun s => s.path.map Num.value).Nodup)
    (hs : ∀ s, findStep r.steps path = some s → s.receipts.satisfied = none)
    (h : apply host r event path ref factId contract p snapshot values profile l = .ok r') :
    List.Forall₂ Evolves r.steps r'.steps ∧ r'.status = r.status ∧ r'.original = r.original := by
  unfold apply at h
  split at h
  · cases h
  · simp only [bind_eq_ok, exists_unit] at h
    obtain ⟨-, h⟩ := h
    split at h
    · cases h
    · rename_i s hf
      simp only [bind_eq_ok, exists_unit] at h
      obtain ⟨-, -, paths, -, -, x, -, ⟨⟩⟩ := h
      have hp : (promote r).steps = r.steps ∧ (promote r).status = r.status
          ∧ (promote r).original = r.original := by
        unfold promote
        split <;> exact ⟨rfl, rfl, rfl⟩
      refine ⟨?_, hp.2⟩
      rw [hp.1]
      exact replaceStep_forall₂ Evolves.refl hn hf (satisfy_evolves (hs s hf) x)

theorem classify_fresh {ref : Text} (h : classify host r event path ref l = .ok .fresh) (s : StepRecord)
    (hs : findStep r.steps path = some s) : s.receipts.satisfied = none := by
  simp only [classify, hs, bind_eq_ok] at h
  obtain ⟨x, -, h⟩ := h
  split at h
  · assumption
  · split at h <;> cases h

end Satisfaction

/-! ### Execution -/

/-- The proposals of a call are of records it sends, in the order of the tree. -/
structure Emits (p : Program) (r r' : Run) (xs : List Proposal) : Prop where
  original : r'.original = r.original
  ordered : (xs.map Proposal.place).Sublist (p.places p.ir.steps.nodes)
  unsent : ∀ x ∈ xs, ∃ s ∈ r.steps, s.path = x.path ∧ s.original = x.stepOriginal
    ∧ s.status = .unsent
  sent : ∀ x ∈ xs, ∃ s ∈ r'.steps, s.path = x.path ∧ s.original = x.stepOriginal
    ∧ s.status ≠ .unsent
  stopped : r.status.stopped = true → xs = []

theorem Emits.nil {r' : Run} (h : r'.original = r.original) : Emits p r r' [] :=
  ⟨h, nil_sublist _, by simp, by simp, fun _ => rfl⟩

namespace Execution

variable {places : List (Text × List Num)}

theorem finished_walked (hn : (r.steps.map StepRecord.path).Nodup) {s : State}
    (hw : Walks places ⟨recordAt r.steps, [], false⟩ s) :
    List.Forall₂ StepRecord.Walked r.steps (r.steps.map fun x => (s.records x.path).getD x) := by
  refine forall₂_map_self fun x hx => ?_
  obtain ⟨x', hx', hw'⟩ := hw.present _ _ (recordAt_of_mem hn hx)
  rw [hx']
  exact hw'

theorem stopped_walked (steps : List StepRecord) : List.Forall₂ Walked steps (steps.map stopRecord) :=
  forall₂_map_self fun s _ => StepRecord.stopRecord_walked s

/-- `finish` keeps the walk's records, halted if something failed, and only then drops the
proposals. -/
theorem finish_emits (hn : (r.steps.map StepRecord.path).Nodup) {s : State}
    (hw : Walks (p.places p.ir.steps.nodes) ⟨recordAt r.steps, [], false⟩ s)
    (hr : r.status.stopped = false) (root : List Num) :
    List.Forall₂ Walked r.steps (finish r root s).1.steps
      ∧ Emits p r (finish r root s).1 (finish r root s).2 := by
  have hs := finished_walked hn hw
  unfold finish
  dsimp only
  split
  · exact ⟨forall₂_trans (fun _ _ _ hx hy => hx.trans hy) hs (stopped_walked _), .nil rfl⟩
  · refine ⟨hs, ?_⟩
    obtain ⟨xs, hxs, hnd, hx⟩ := hw.proposals
    rw [append_nil] at hxs
    refine ⟨rfl, ?_, fun x hm => ?_, fun x hm => ?_, fun h => by simp [hr] at h⟩
    · rw [hxs]
      exact hnd
    · rw [mem_reverse, hxs] at hm
      obtain ⟨y, -, hy, hu, -, -, ho⟩ := hx x hm
      obtain ⟨hym, hyp⟩ := recordAt_eq_some hy
      exact ⟨y, hym, hyp, ho.symm, hu⟩
    · rw [mem_reverse, hxs] at hm
      obtain ⟨y, y', hy, -, hy', hne, ho⟩ := hx x hm
      obtain ⟨hym, hyp⟩ := recordAt_eq_some hy
      obtain ⟨y₁, hy₁, hyw⟩ := hw.present _ _ hy
      obtain rfl := Option.some.inj (hy₁.symm.trans hy')
      refine ⟨y₁, mem_map.mpr ⟨y, hym, ?_⟩, hyw.path.trans hyp, hyw.original.trans ho.symm, hne⟩
      rw [hyp, hy₁, Option.getD_some]

/-- **One execution.** Records change as the walk allows; each proposal sends its record. -/
theorem advance_emits (hn : (r.steps.map StepRecord.path).Nodup) {values : Values} {t : Time}
    {profile : Profile} {r' : Run} {xs : List Proposal}
    (h : advance host r p values t profile l = .ok (r', xs)) :
    List.Forall₂ StepRecord.Walked r.steps r'.steps ∧ Emits p r r' xs := by
  unfold advance at h
  split at h
  · cases h
    exact ⟨forall₂_same.mpr fun s _ => .refl s, .nil rfl⟩
  · rename_i hr
    split at h
    · cases h
      exact ⟨stopped_walked _, .nil rfl⟩
    · obtain ⟨t, -, h⟩ := bind_eq_ok.mp h
      have hf : ∀ {s : State}, Walks (p.places p.ir.steps.nodes) ⟨recordAt r.steps, [], false⟩ s →
          finish r p.ir.steps.path s = (r', xs) →
          List.Forall₂ Walked r.steps r'.steps ∧ Emits p r r' xs := by
        intro s hw he
        have := finish_emits hn hw (by simpa using hr) p.ir.steps.path
        rwa [he] at this
      split at h
      · simp only [bind_eq_ok, Outcome.ok.injEq] at h
        obtain ⟨s, hv, he⟩ := h
        exact hf (visit_walks hv) he
      · exact hf (.block _) (Outcome.ok.inj h)

end Execution

/-! ### The transition -/

namespace Kernel

/-- What an accepted continuation does to the retained run. -/
structure Continues (p : Program) (r r' : Run) (xs : List Proposal) : Prop where
  steps : List.Forall₂ Evolves r.steps r'.steps
  emits : Emits p r r' xs

variable {r' : Run} {xs : List Proposal} {c : Call}

theorem Continues.before {r₀ : Run} (h₀ : List.Forall₂ Evolves r₀.steps r.steps)
    (hs : r.status = r₀.status ∧ r.original = r₀.original) (h : Continues p r r' xs) :
    Continues p r₀ r' xs where
  steps := forall₂_evolves_trans h₀ h.steps
  emits :=
    { h.emits with
      original := h.emits.original.trans hs.2
      stopped := hs.1 ▸ h.emits.stopped
      unsent := fun x hx => by
        obtain ⟨s, hm, hp, ho, hu⟩ := h.emits.unsent x hx
        obtain ⟨s₀, hm₀, he⟩ := forall₂_exists_left h₀ hm
        exact ⟨s₀, hm₀, he.path.symm.trans hp, he.original.symm.trans ho, he.sent hu⟩ }

variable (hn : (r.steps.map fun s => s.path.map Num.value).Nodup)

include hn

/-- A live continuation files the receipt and then walks or halts. -/
theorem continueLive_emits (h : continueLive c r = .ok (r', xs)) :
    ∃ r₁, Receipt.apply c.host r c.event c.program c.limits = .ok r₁
      ∧ List.Forall₂ Walked r₁.steps r'.steps ∧ Emits c.program r₁ r' xs := by
  simp only [continueLive, bind_eq_ok, exists_unit] at h
  obtain ⟨-, r₁, ha, h⟩ := h
  refine ⟨r₁, ha, ?_⟩
  have hn₁ : (r₁.steps.map path).Nodup := by
    rw [map_eq_of_forall₂ (fun _ _ hx => hx.path) (Receipt.apply_evolves hn ha).1]
    exact paths_nodup_of_values hn
  iterate 3
    split at h
    · cases h
      exact ⟨Execution.stopped_walked _, .nil rfl⟩
  obtain ⟨hs, he⟩ := Execution.advance_emits (r := touch r₁ c.time) hn₁ h
  exact ⟨hs, { he with }⟩

theorem continueLive_continues (h : continueLive c r = .ok (r', xs)) :
    Continues c.program r r' xs := by
  obtain ⟨r₁, ha, hs, he⟩ := continueLive_emits hn h
  obtain ⟨hr, hst⟩ := Receipt.apply_evolves hn ha
  exact .before hr hst ⟨hs.imp fun _ _ hx => hx.toEvolves, he⟩

/-- **One continuation.** -/
theorem continueRun_continues (h : continueRun c r = .ok (r', xs)) : Continues c.program r r' xs := by
  have kept : (r, ([] : List Proposal)) = (r', xs) → Continues c.program r r' xs := by
    rintro ⟨⟩
    exact ⟨forall₂_evolves_refl _, .nil rfl⟩
  unfold continueRun at h
  split at h
  · split at h
    · exact kept (Outcome.ok.inj h)
    · exact continueLive_continues hn h
  · obtain ⟨f, hf, h⟩ := bind_eq_ok.mp h
    cases f with
    | duplicate =>
      dsimp only at h
      split at h
      · exact kept (Outcome.ok.inj h)
      · exact continueLive_continues hn h
    | fresh =>
      dsimp only at h
      split at h
      · cases h
      · split at h
        · exact continueLive_continues hn h
        · obtain ⟨r₁, ha, h⟩ := bind_eq_ok.mp h
          obtain ⟨hr, hst⟩ := Satisfaction.apply_evolves hn (Satisfaction.classify_fresh hf) ha
          have hn₁ : (r₁.steps.map fun s => s.path.map Num.value).Nodup := by
            rw [map_eq_of_forall₂ (fun _ _ hx => congrArg (map Num.value) hx.path) hr]
            exact hn
          exact .before hr hst (continueLive_continues hn₁ h)
  · exact continueLive_continues hn h

end Kernel

end Wotex.Routines
