import Wotex.Routines.Alias
import Wotex.Routines.Run

/-!
# Regenerated programs

`Compiler.toMap` accepts a retained program when compiling its own source and context gives the
same term up to `==`. `Regeneration` collects what that establishes: the checked inputs, the IR
that was built, and that the retained IR, profile and limits have its values.

`toMap_exact_iff`: the accepted program is the regenerated one exactly when none of its numbers is a
float. The comparison does not establish that (`aliased_accepted`): a delay of `3.0` is accepted
where the compiler writes `3`.
-/

namespace Wotex.Routines

open Compiler

open Wotex.Json (Value Agreement)

/-! ## What the constructors return -/

theorem Limits.new_ok {l l' : Limits} (h : l.new = .ok l') : l' = l := (Limits.new_eq_ok.mp h).1

theorem Profile.new_ok {p p' : Profile} (h : p.new = .ok p') : p' = p := by
  simp only [Profile.new, bind_eq_ok, Outcome.ok.injEq] at h
  obtain ⟨_, _, h⟩ := h
  exact h.symm

theorem admitData_ok {host : Host} {v : Value} {l l' : Limits} (h : admitData host v l = .ok l') :
    l' = l ∧ l.new = .ok l ∧ bounded host v l = .ok () := by
  simp only [admitData, bind_eq_ok] at h
  obtain ⟨k, hk, _, hb, ⟨⟩⟩ := h
  obtain rfl := Limits.new_ok hk
  exact ⟨rfl, hk, hb⟩

theorem Source.new_ok {host : Host} {s s' : Source} {p : Profile} {l : Limits}
    (h : s.new host p l = .ok s') : s' = s := by
  simp only [Source.new, bind_eq_ok, Outcome.ok.injEq] at h
  obtain ⟨_, _, _, _, _, _, _, _, _, _, _, _, _, _, _, _, _, _, _, _, _, _, h⟩ := h
  exact h.symm

/-! ## The regeneration of a program -/

/-- What `Compiler.toMap` establishes about a program. -/
structure Regeneration (host : Host) (p : Program) (profile : Profile) (l : Limits) where
  installed : Installed
  ir : IR Int
  profileNew : profile.new = .ok profile
  limitsNew : l.new = .ok l
  source : p.source.new host profile l = .ok p.source
  resolved : p.context.resolve host p.source profile l = .ok installed
  built : Expansion.build host p.source installed profile l = .ok ir
  sourceDigest : hash host (sourceDigestData p.source p.context) l = .ok p.sourceDigest
  irDigest : hash host (irDigestData p.sourceDigest (ir.map Num.int)
    (profile.map Num.int)) l = .ok p.irDigest
  irValues : p.ir.map Num.value = ir.map Int.cast
  profileValues : p.profile.map Num.value = profile.map Int.cast
  limitsValues : p.limits.map Num.value = l.map Int.cast
  bounds : bounded host p.data l = .ok ()
  rebuiltBounds : bounded host (Program.data
    { p with profile := profile.map Num.int, limits := l.map Num.int, ir := ir.map Num.int }) l = .ok ()

namespace Regeneration

variable {host : Host} {p : Program} {profile : Profile} {l : Limits}

variable (r : Regeneration host p profile l)

/-- The program the compiler produces. -/
def rebuilt : Program :=
  { p with profile := profile.map Num.int, limits := l.map Num.int, ir := r.ir.map Num.int }

theorem compile_eq : compile host p.source p.context profile l = .ok r.rebuilt := by
  simp only [compile, r.profileNew, r.limitsNew, r.source, r.resolved, r.built,
    r.sourceDigest, r.irDigest, ok_bind]
  rw [show bounded host _ l = .ok () from r.rebuiltBounds]
  rfl

end Regeneration

namespace Compiler

variable {host : Host} {p q : Program} {profile : Profile} {l : Limits}

theorem compile_same {rebuilt : Program} (hc : compile host p.source p.context profile l = .ok rebuilt)
    (hs : rebuilt.data.same p.data = true) (hb : bounded host p.data l = .ok ()) :
    ∃ r : Regeneration host p profile l, r.rebuilt = rebuilt := by
  simp only [compile, bind_eq_ok] at hc
  obtain ⟨pr, hpr, lm, hlm, s, hsrc, ins, hres, ir, hir, sd, hsd, id, hid, _, hbd, ⟨⟩⟩ := hc
  obtain rfl := Profile.new_ok hpr
  obtain rfl := Limits.new_ok hlm
  obtain rfl := Source.new_ok hsrc
  have h := Agreement.same.obj hs
  simp only [List.forall₂_cons, true_and] at h
  obtain ⟨-, -, -, hi, hdi, hl, hp, -, hds, -⟩ := h
  obtain rfl := Agreement.same.str hds
  obtain rfl := Agreement.same.str hdi
  have hi := IR.map_eq_of_data Agreement.same hi
  have hp := ProfileOf.map_eq_of_data Agreement.same hp
  have hl := LimitsOf.map_eq_of_data Agreement.same hl
  rw [IR.map_map] at hi
  exact ⟨⟨ins, ir, hpr, hlm, hsrc, hres, hir, hsd, hid, hi.symm, hp.symm, hl.symm, hb, hbd⟩, rfl⟩

/-- **What acceptance establishes**: the program is returned as it is, and it has a regeneration. -/
theorem toMap_ok (h : toMap host p profile l = .ok q) :
    q = p ∧ ∃ r : Regeneration host p profile l, r.rebuilt.data.same p.data = true := by
  simp only [toMap, current, bind_eq_ok, require_eq_ok] at h
  obtain ⟨_, hadm, _, ⟨_, -, rebuilt, hc, hs⟩, ⟨⟩⟩ := h
  obtain ⟨r, rfl⟩ := compile_same hc hs (admitData_ok hadm).2.2
  exact ⟨rfl, r, hs⟩

/-- A program within the bounds that the regeneration equals by `==` is accepted. -/
theorem toMap_of_compile {rebuilt : Program}
    (hc : compile host p.source p.context profile l = .ok rebuilt)
    (hs : rebuilt.data.same p.data = true) (hl : l.new = .ok l) (hb : bounded host p.data l = .ok ()) :
    toMap host p profile l = .ok p := by
  have ha : admitData host p.data l = .ok l := by
    simp [admitData, hl, hb]
  simp [toMap, current, ha, hc, hs]

end Compiler

/-! ## Exactness -/

/-- No number of the program's IR, profile or limits is a float. -/
def Program.Integral (p : Program) : Prop :=
  (∃ ir : IR Int, p.ir = ir.map Num.int) ∧ (∃ profile : Profile, p.profile = profile.map Num.int)
    ∧ ∃ l : Limits, p.limits = l.map Num.int

section

variable {ν μ : Type} {f : ν → μ} (hf : Function.Injective f)
include hf

theorem ProfileOf.map_injective : Function.Injective (ProfileOf.map f) := by
  intro a b h
  simp only [ProfileOf.map, ProfileOf.mk.injEq, hf.eq_iff] at h
  cases a
  cases b
  simpa using h

theorem LimitsOf.map_injective : Function.Injective (LimitsOf.map f) := by
  intro a b h
  simp only [LimitsOf.map, LimitsOf.mk.injEq, hf.eq_iff] at h
  cases a
  cases b
  simpa using h

end

namespace Regeneration

variable {host : Host} {p : Program} {profile : Profile} {l : Limits}

variable (r : Regeneration host p profile l)
include r

theorem ir_eq (h : ∃ ir : IR Int, p.ir = ir.map Num.int) : p.ir = r.ir.map Num.int := by
  obtain ⟨ir, hir⟩ := h
  have hv := r.irValues
  rw [hir, IR.map_map] at hv
  rw [hir, IR.map_injective (f := (Int.cast : Int → ℚ)) Int.cast_injective hv]

theorem rebuilt_eq_iff : r.rebuilt = p ↔ p.Integral := by
  constructor
  · intro h
    exact ⟨⟨r.ir, (congrArg Program.ir h).symm⟩, ⟨profile, (congrArg Program.profile h).symm⟩,
      ⟨l, (congrArg Program.limits h).symm⟩⟩
  · rintro ⟨hir, ⟨pr, hpr⟩, ⟨lm, hlm⟩⟩
    have hp : pr = profile := ProfileOf.map_injective (f := (Int.cast : Int → ℚ))
      Int.cast_injective (by rw [← r.profileValues, hpr]; rfl)
    have hl : lm = l := LimitsOf.map_injective (f := (Int.cast : Int → ℚ)) Int.cast_injective
      (by rw [← r.limitsValues, hlm]; rfl)
    unfold rebuilt
    rw [← r.ir_eq hir, ← hp, ← hl, ← hpr, ← hlm]

theorem rebuilt_eq_of_data (h : r.rebuilt.data = p.data) : r.rebuilt = p := by
  simp only [Program.data, Value.obj.injEq, List.cons.injEq, Prod.mk.injEq, true_and] at h
  obtain ⟨-, hi, -, hl, hp, -⟩ := h
  have hi := IR.map_eq_of_data Agreement.identical hi
  have hp : profile.map Num.int = p.profile := ProfileOf.map_eq_of_data Agreement.identical hp
  have hl : l.map Num.int = p.limits := LimitsOf.map_eq_of_data Agreement.identical hl
  rw [IR.map_id, IR.map_id] at hi
  have hi : r.ir.map Num.int = p.ir := hi
  rw [rebuilt, hi, hp, hl]

end Regeneration

namespace Compiler

variable {host : Host}

/-- The accepted term is the compiled one exactly when it has no float. -/
theorem toMap_exact_iff {p : Program} {profile : Profile} {l : Limits}
    (h : toMap host p profile l = .ok p) :
    (∃ q, compile host p.source p.context profile l = .ok q ∧ q.data = p.data) ↔ p.Integral := by
  obtain ⟨-, r, -⟩ := toMap_ok h
  rw [r.compile_eq, ← r.rebuilt_eq_iff]
  constructor
  · rintro ⟨q, hq, hd⟩
    cases hq
    exact r.rebuilt_eq_of_data hd
  · intro hr
    exact ⟨r.rebuilt, rfl, by rw [hr]⟩

/-- Accepted programs of one IR digest were built from one IR, unless SHA-256 collides. -/
theorem ir_eq_of_digest {p p' : Program} {profile profile' : Profile} {l l' : Limits}
    (r : Regeneration host p profile l) (r' : Regeneration host p' profile' l')
    (hf : Json.FloatText host.float) (hd : p.irDigest = p'.irDigest)
    (hs : host.Separates (irDigestData p.sourceDigest (r.ir.map Num.int) (profile.map Num.int))
      (irDigestData p'.sourceDigest (r'.ir.map Num.int) (profile'.map Num.int))) :
    r.ir = r'.ir := by
  have h := Agreement.identical.obj (eq_of_hash hf hs (hd ▸ r.irDigest) r'.irDigest)
  simp only [List.forall₂_cons, true_and] at h
  have hi := IR.map_eq_of_data Agreement.identical h.1
  rw [IR.map_id, IR.map_id] at hi
  exact IR.map_injective (fun a b h => Num.int.inj h) hi

/-- **Regeneration checks are exact on integral programs, and only there.** An accepted program is
the compiled one if and only if it has no float; two accepted programs without floats that have one
IR digest have one IR and give every node one step identity, unless SHA-256 collides on the two
digest terms. -/
theorem regeneration_exact (host : Host) :
    (∀ (p : Program) (profile : Profile) (l : Limits), toMap host p profile l = .ok p →
      ((∃ q, compile host p.source p.context profile l = .ok q ∧ q.data = p.data) ↔ p.Integral))
    ∧ ∀ (p p' : Program) (profile profile' : Profile) (l l' : Limits),
      toMap host p profile l = .ok p → toMap host p' profile' l' = .ok p' →
      p.Integral → p'.Integral → p.irDigest = p'.irDigest → Json.FloatText host.float →
      host.Separates (irDigestData p.sourceDigest p.ir p.profile)
        (irDigestData p'.sourceDigest p'.ir p'.profile) →
      p.ir = p'.ir ∧ ∀ (original : Text) (path : List Num) (k : Limits),
        ExecutionTree.identity host p original path k = ExecutionTree.identity host p' original path k := by
  refine ⟨fun p profile l h => toMap_exact_iff h, ?_⟩
  intro p p' profile profile' l l' h h' hi hi' hd hf hs
  obtain ⟨-, r, -⟩ := toMap_ok h
  obtain ⟨-, r', -⟩ := toMap_ok h'
  have hp : profile.map Num.int = p.profile := congrArg Program.profile (r.rebuilt_eq_iff.mpr hi)
  have hp' : profile'.map Num.int = p'.profile := congrArg Program.profile (r'.rebuilt_eq_iff.mpr hi')
  have hir := r.ir_eq hi.1
  have hir' := r'.ir_eq hi'.1
  rw [hir, hir', ← hp, ← hp'] at hs
  refine ⟨by rw [hir, hir', ir_eq_of_digest r r' hf hd hs], fun original path k => ?_⟩
  simp [ExecutionTree.identity, ExecutionTree.identityData, hd]

end Compiler

/-! ## A program

A lamp with one property: an edge on its level starts a run that sets the level at once and again
after a delay. Its digests are those of a host whose SHA-256 reads 24 characters of the text. -/

/-- A host to evaluate with. -/
def lampHost : Host where
  sha256 cs := BitVec.ofNat 256 (((cs.drop 20).take 24).foldl (fun a c => a * 1024 + c.toNat) 7)
  float := Json.binaryFloat
  iri _ := true
  iso8601 _ := none
  inputBasis _ _ _ := .error ⟨.staleBindingBasis, ""⟩

/-- Limits to evaluate with. -/
def lampLimits : Limits := ⟨1000000, 64, 100000, 65536, 8192, 9223372036854775807⟩

/-- A profile to evaluate with. -/
def lampProfile : Profile :=
  ⟨1048576, 32, 4096, 4096, 16, 64, 1024, 1024, 1024, 1024, 1024, 604800000⟩

/-- The contract the lamp's basis names. -/
def lampContract : Ref := ⟨"c", "1", digestText 0⟩

/-- The basis of the lamp's level. -/
def lampBasis : Basis where
  id := "b"
  version := "1"
  byteDigest := digestText 0
  semanticDigest :=
    digestText 12426692083330263953069146554654455887771380205807293578866225374435594341
  implementationDigest := digestText 0
  compilerDigest := digestText 0
  affordance := ⟨.property, "p", .writeproperty⟩
  value := .integer ⟨.fraction, "u", 1, 1, 0, 1, 0, 100⟩
  output := none
  securityContract := lampContract
  lifecycleContract := lampContract
  requiredContracts := []
  evidence := ⟨[.deviceReport], 1000, false, false, .protocolResponse, lampContract⟩
  effects := ⟨[], .never, false, false, false⟩
  timing := ⟨500, 0, 0, 0⟩
  analysis := .unsupported
  annotations := ⟨none, none, none⟩

/-- The context with the lamp as its only binding. -/
def lampContext : Context where
  registry := [⟨lampContract, []⟩, ⟨lampBasis.ref, []⟩]
  bases := [lampBasis]
  bindings := ⟨[("x", ⟨lampBasis.ref, "urn:t", Dict.empty⟩)], by decide⟩
  definitions := []
  arguments := Dict.empty
  compilerBasis := digestText 0

/-- Its binding resolved. -/
def lampBindings : Dict Resolved :=
  ⟨[("x", ⟨⟨lampBasis.ref, "urn:t", Dict.empty⟩, lampBasis⟩)], by decide⟩

/-- The source. -/
def lampSource : Source where
  id := "s"
  revision := "1"
  parameters := Dict.empty
  bindings := ["x"]
  trigger := .edge ⟨"x", .rising, 0, 10, some ⟨5, 3⟩⟩
  condition := .literal .yes
  steps := .parallel "r" [.effect "e" "x" (.scalar (.num 5)) .protocolResponse,
    .sequence "q" [.delay "d" 3, .effect "f" "x" (.scalar (.num 5)) .protocolResponse]]
  runMs := 1000

/-- The tree of the program, over its delay and its second level. -/
def lampSteps (duration level : Num) : Node Num :=
  .parallel "r" [] [.effect ⟨"e", [.int 0], "x", .num (.int 5), .protocolResponse, lampContract⟩,
    .sequence "q" [.int 1] [.delay "d" [.int 1, .int 0] duration,
      .effect ⟨"f", [.int 1, .int 1], "x", .num level, .protocolResponse, lampContract⟩]]

/-- The program with a delay and a second level of its own. -/
def lampWith (duration level : Num) : Program where
  source := lampSource
  context := lampContext
  profile := lampProfile.map Num.int
  limits := lampLimits.map Num.int
  sourceDigest := digestText 0x00071d0730883a1ec7d0b022188611cc651cc220e85b1ec22184661986f1c864
  ir := ⟨[.literal .yes], .edge ⟨"x", .rising, .int 0, .int 10, some ⟨.int 5, .int 3⟩⟩,
    lampSteps duration level, .int 1000⟩
  irDigest := digestText 0x0007088771bc74194780b8721bc751d0691b8651cc2e18c6f1b4701a46c19472

/-- The compiled program. -/
def lampProgram : Program := lampWith (.int 3) (.int 5)

/-- A float. -/
abbrev flt (i : Int) : Num := .flt (Flt.ofInt i)

set_option maxRecDepth 100000 in
/-- What the evaluations below share: the compiler's result, and the comparison and the bounds of the
program with one number a float. -/
theorem lamp_evaluates :
    (compile lampHost lampSource lampContext lampProfile lampLimits).toOption.map
      Program.data = some lampProgram.data ∧ lampProgram.data ≠ (lampWith (flt 3) (.int 5)).data
    ∧ ∀ q ∈ [lampProgram, lampWith (flt 3) (.int 5), lampWith (.int 3) (flt 5)],
      bounded lampHost q.data lampLimits = .ok () ∧ lampProgram.data.same q.data = true := by
  decide +kernel

theorem compile_of_data {host : Host} {p : Program} {profile : Profile} {l : Limits}
    (h : (compile host p.source p.context profile l).toOption.map Program.data = some p.data)
    (hb : bounded host p.data l = .ok ()) : compile host p.source p.context profile l = .ok p := by
  obtain ⟨q, hq, hd⟩ := Option.map_eq_some_iff.mp h
  rw [Outcome.toOption_eq_some] at hq
  obtain ⟨r, rfl⟩ := compile_same hq (by rw [hd]; exact Json.Value.same_refl _) hb
  rw [← r.rebuilt_eq_of_data hd]
  exact hq

theorem lamp_compiles : compile lampHost lampSource lampContext lampProfile lampLimits = .ok lampProgram :=
  compile_of_data (p := lampProgram) lamp_evaluates.1 (lamp_evaluates.2.2 _ (by simp)).1

/-- The program is accepted with its delay or its second level a float. -/
theorem lampWith_accepted {duration level : Num} (h : lampWith duration level ∈
      [lampProgram, lampWith (flt 3) (.int 5), lampWith (.int 3) (flt 5)]) :
    toMap lampHost (lampWith duration level) lampProfile lampLimits
      = .ok (lampWith duration level) :=
  toMap_of_compile lamp_compiles (lamp_evaluates.2.2 _ h).2 rfl (lamp_evaluates.2.2 _ h).1

theorem lamp_accepted : toMap lampHost lampProgram lampProfile lampLimits = .ok lampProgram :=
  lampWith_accepted List.mem_cons_self

theorem lamp_integral : lampProgram.Integral :=
  ⟨⟨⟨[.literal .yes], .edge ⟨"x", .rising, 0, 10, some ⟨5, 3⟩⟩,
      .parallel "r" [] [.effect ⟨"e", [0], "x", .num 5, .protocolResponse, lampContract⟩,
        .sequence "q" [1] [.delay "d" [1, 0] 3,
          .effect ⟨"f", [1, 1], "x", .num 5, .protocolResponse, lampContract⟩]], 1000⟩, rfl⟩,
    ⟨lampProfile, rfl⟩, ⟨lampLimits, rfl⟩⟩

/-- Other limits to evaluate with. -/
def tightLimits : Limits := ⟨900000, 64, 100000, 65536, 8192, 9223372036854775807⟩

/-- The program compiled under them; its IR digest does not cover the limits. -/
def tightProgram : Program := { lampProgram with limits := tightLimits.map Num.int }

set_option maxRecDepth 100000 in
theorem tight_evaluates :
    (compile lampHost lampSource lampContext lampProfile tightLimits).toOption.map
      Program.data = some tightProgram.data ∧ bounded lampHost tightProgram.data tightLimits = .ok ()
    ∧ tightProgram.data ≠ lampProgram.data := by
  decide +kernel

theorem lamp_exact :
    Compiler.toMap lampHost lampProgram lampProfile lampLimits = .ok lampProgram
    ∧ (∃ q, Compiler.compile lampHost lampSource lampContext lampProfile lampLimits = .ok q
        ∧ q.data = lampProgram.data)
    ∧ Compiler.toMap lampHost tightProgram lampProfile tightLimits = .ok tightProgram
    ∧ tightProgram ≠ lampProgram
    ∧ lampProgram.ir = tightProgram.ir ∧ ∀ (original : Text) (path : List Num) (k : Limits),
      ExecutionTree.identity lampHost lampProgram original path k
        = ExecutionTree.identity lampHost tightProgram original path k := by
  obtain ⟨hcompile, hbounded, hne⟩ := tight_evaluates
  have htight : Compiler.toMap lampHost tightProgram lampProfile tightLimits = .ok tightProgram :=
    toMap_of_compile (compile_of_data (p := tightProgram) hcompile hbounded) (Json.Value.same_refl _) rfl
      hbounded
  obtain ⟨exact, same⟩ := Compiler.regeneration_exact lampHost
  exact ⟨lamp_accepted, (exact lampProgram lampProfile lampLimits lamp_accepted).mpr lamp_integral,
    htight, fun h => hne (by rw [h]),
    same lampProgram tightProgram lampProfile lampProfile lampLimits tightLimits lamp_accepted htight
      lamp_integral ⟨lamp_integral.1, lamp_integral.2.1, tightLimits, rfl⟩ rfl
      Json.binaryFloat_floatText fun _ => rfl⟩

/-- The delay is `3.0`: accepted, and not what the compiler produces. -/
theorem aliased_accepted :
    Compiler.toMap lampHost (lampWith (flt 3) (.int 5)) lampProfile lampLimits
        = .ok (lampWith (flt 3) (.int 5))
    ∧ ¬ ∃ q, Compiler.compile lampHost (lampWith (flt 3) (.int 5)).source
        (lampWith (flt 3) (.int 5)).context lampProfile lampLimits = .ok q
      ∧ q.data = (lampWith (flt 3) (.int 5)).data := by
  refine ⟨lampWith_accepted (by simp), ?_⟩
  rintro ⟨q, hq, hd⟩
  obtain rfl := Outcome.ok.inj (lamp_compiles.symm.trans hq)
  exact lamp_evaluates.2.1 hd

end Wotex.Routines
