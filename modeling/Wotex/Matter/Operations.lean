import Wotex.Matter.Storage

/-!
# The operations of a store

What an operation does is said once, by `Does`. What it commits can be read back (`plan_writable`): the checks
of `SyncSetKeyValue` and `Allocate` are those of `ParseState`.
-/

namespace Wotex.Matter

open Std (ExtTreeMap)

variable {identity : Identity} {store : Store} {operation : Operation} {p : Plan}

/-- What an operation does, where it does not refuse. -/
def Does (store : Store) : Operation → Plan → Prop
  | _, .answer (.error _) => True
  | .get _ _ _, .answer (.value _ _) => True
  | .set _ value size, .commit next _ => ∃ key, validKey key = true ∧
      (store.contents.values[key]? = none → store.contents.values.size < maximumKeys) ∧
      next = { store.contents with
        values := store.contents.values.insert key ((value.getD []).take size.toNat) }
  | .delete _, .commit next _ =>
    ∃ key, next = { store.contents with values := store.contents.values.erase key }
  | .allocate thing _, .answer (.endpoint e) => store.contents.endpoints[thing]? = some e
  | .allocate thing type, .commit next reply => validThing thing = true ∧
      store.contents.endpoints[thing]? = none ∧
      store.contents.endpoints.size < maximumLiveEndpoints ∧
      store.contents.nextEndpoint ≤ maximumEndpoint ∧
      next = { store.contents with
        endpoints := store.contents.endpoints.insert thing ⟨store.contents.nextEndpoint, type⟩
        nextEndpoint := store.contents.nextEndpoint + 1 } ∧
      reply = .endpoint ⟨store.contents.nextEndpoint, type⟩
  | .remove thing, .commit next _ =>
    next = { store.contents with endpoints := store.contents.endpoints.erase thing }
  | .lookup thing, .answer (.endpoint e) => store.contents.endpoints[thing]? = some e
  | .endpoints, .answer (.endpoints active) => active = store.contents.endpoints
  | .retired endpoint, .answer (.retired b) => firstEndpoint ≤ endpoint ∧
      b = (endpoint < store.contents.nextEndpoint &&
        store.contents.endpoints.toList.all fun e => e.2.endpoint != endpoint)
  | _, _ => False

/-- A store that is poisoned refuses every operation. -/
theorem plan_unpoisoned (h : plan identity store operation = some p) (hp : ∀ e, p ≠ .answer (.error e)) :
    store.poisoned = false := by
  by_contra hbad
  rw [Bool.not_eq_false] at hbad
  cases operation <;> cases identity <;>
    simp [plan, syncGetKeyValue, syncSetKeyValue, syncDeleteKeyValue, allocate, remove, lookup, endpoints,
      retired, hbad] at h <;> exact hp _ h.symm

theorem plan_does (h : plan identity store operation = some p) : Does store operation p := by
  cases operation with
  | get =>
    simp only [plan, syncGetKeyValue, Option.some.injEq] at h
    repeat' split at h
    all_goals subst h; trivial
  | set =>
    simp only [plan, syncSetKeyValue, Option.some.injEq] at h
    repeat' split at h
    all_goals subst h; try trivial
    rename_i hk _ hroom
    exact ⟨_, (Option.filter_eq_some_iff.mp hk).2, fun hn => not_le.mp fun hle => hroom ⟨hn, hle⟩, rfl⟩
  | delete =>
    simp only [plan, syncDeleteKeyValue, Option.some.injEq] at h
    repeat' split at h
    all_goals subst h; try trivial
    exact ⟨_, rfl⟩
  | allocate =>
    cases identity with
    | controller => cases h
    | bridge =>
    simp only [plan, allocate, Option.some.injEq] at h
    repeat' split at h
    all_goals subst h; try trivial
    rename_i hvalid _ hnew hroom
    rw [not_or, not_le, not_lt] at hroom
    rw [Nat.mod_eq_of_lt (lt_of_le_of_lt hroom.2 (by decide))]
    exact ⟨by simpa using hvalid, hnew, hroom.1, hroom.2, rfl, rfl⟩
  | remove | lookup | endpoints | retired =>
    cases identity with
    | controller => cases h
    | bridge =>
    simp only [plan, remove, lookup, endpoints, retired, Option.some.injEq] at h
    repeat' split at h
    all_goals subst h; first | trivial | rfl | assumption | exact ⟨by omega, rfl⟩

variable {endpoints : Endpoints} {n : Nat}

theorem Registered.allocate {thing : Bytes} (h : Registered endpoints n)
    (hthing : validThing thing = true) (hnew : endpoints[thing]? = none)
    (hroom : endpoints.size < maximumLiveEndpoints) (hn : n ≤ maximumEndpoint) (type : BridgedDeviceType) :
    Registered (endpoints.insert thing ⟨n, type⟩) (n + 1) := by
  have hthing' : thing ≠ [] ∧ thing.length ≤ maximumThingBytes := by
    simpa [validThing] using hthing
  -- an entry is the new one or an old one, and the numbers of those are below
  have hcases : ∀ {t : Bytes} {e : BridgeEndpoint}, (endpoints.insert thing ⟨n, type⟩)[t]? = some e →
      (t = thing ∧ e = ⟨n, type⟩) ∨ endpoints[t]? = some e := by
    intro t e he
    rw [Tables.getElem_insert] at he
    split at he
    · rename_i heq
      exact .inl ⟨heq.symm, (Option.some.inj he).symm⟩
    · exact .inr he
  refine ⟨h.first_le.trans (Nat.le_succ n), Nat.succ_le_succ hn, ?_, ?_, ?_⟩
  · rw [Tables.size_insert_of_none hnew]
    exact hroom
  · intro t e he
    rcases hcases he with ⟨rfl, rfl⟩ | he
    · exact ⟨h.first_le, Nat.lt_succ_self n, hthing'⟩
    · exact ⟨(h.entry he).1, Nat.lt_succ_of_lt (h.entry he).2.1, (h.entry he).2.2⟩
  · intro t u e f he hf heq
    rcases hcases he with ⟨rfl, rfl⟩ | he' <;> rcases hcases hf with ⟨rfl, rfl⟩ | hf'
    · rfl
    · exact absurd heq.symm (ne_of_lt (h.entry hf').2.1)
    · exact absurd heq (ne_of_lt (h.entry he').2.1)
    · exact h.single he' hf' heq

theorem Registered.remove (h : Registered endpoints n) (thing : Bytes) :
    Registered (endpoints.erase thing) n := by
  have hold : ∀ {t : Bytes} {e : BridgeEndpoint}, (endpoints.erase thing)[t]? = some e →
      endpoints[t]? = some e := by
    intro t e he
    rw [Tables.getElem_erase] at he
    split at he
    · cases he
    · exact he
  exact ⟨h.first_le, h.next_le, ExtTreeMap.size_erase_le.trans h.size_le, fun he => h.entry (hold he),
    fun he hf => h.single (hold he) (hold hf)⟩

theorem plan_not_opened {reply : Reply} {contents : Contents}
    (h : plan identity store operation = some (.answer reply)) : reply ≠ .opened contents := by
  rintro rfl
  cases operation <;> exact plan_does h

/-- **What an operation commits reads back.** -/
theorem plan_writable {next : Contents} {reply : Reply} (hw : Writable identity store.contents)
    (h : plan identity store operation = some (.commit next reply)) : Writable identity next := by
  have hdoes := plan_does h
  cases operation with
  | get | lookup | endpoints | retired => exact hdoes.elim
  | set key value size =>
    obtain ⟨k, hk, hroom, rfl⟩ := hdoes
    refine ⟨hw.valid, ?_, ?_, hw.registry⟩
    · by_cases hnew : store.contents.values[k]? = none
      · rw [Tables.size_insert_of_none hnew]
        exact hroom hnew
      · rw [Tables.size_insert_of_some hnew]
        exact hw.size_le
    · intro k' v' hv
      rw [Tables.getElem_insert] at hv
      split at hv
      · rename_i heq
        cases hv
        refine ⟨heq ▸ hk, ?_⟩
        have hsize := size.toNat_lt
        have : maximumValueBytes = 65535 := rfl
        rw [List.length_take]
        omega
      · exact hw.entry hv
  | delete key =>
    obtain ⟨k, rfl⟩ := hdoes
    refine ⟨hw.valid, ExtTreeMap.size_erase_le.trans hw.size_le, ?_, hw.registry⟩
    intro k' v' hv
    rw [Tables.getElem_erase] at hv
    split at hv
    · cases hv
    · exact hw.entry hv
  | allocate thing type =>
    cases identity with
    | controller => cases h
    | bridge =>
      obtain ⟨hthing, hnew, hroom, hn, rfl, -⟩ := hdoes
      exact ⟨hw.valid, hw.size_le, hw.entry, hw.registry.allocate hthing hnew hroom hn type⟩
  | remove thing =>
    cases identity with
    | controller => cases h
    | bridge =>
      obtain rfl : next = _ := hdoes
      exact ⟨hw.valid, hw.size_le, hw.entry, hw.registry.remove thing⟩

end Wotex.Matter
