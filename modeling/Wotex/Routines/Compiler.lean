import Wotex.Routines.Program

/-!
# The compiler

Models `compilation_context.ex`, `expansion.ex` and `compiler.ex`.

`Context.resolve` checks the registry, the bases, the bindings and the closure of child sources
and pairs each binding with its basis. `Expansion.build` walks the source once, replaces
parameters by values and invocations by the bodies they name, and gives every node its path; it
counts every possible path against the profile. `compile` hashes the inputs and the IR.

`current` and `toMap` regenerate a retained program and compare the two with `==`
(`compiler.ex:88`): numbers by value, everything else exactly.

Where the code walks the entries of a map in map order, the order only decides which of several
refusals is given; here it is key order.
-/

namespace Wotex.Routines

open Wotex.Json (Value)

/-! ## The context (`compilation_context.ex`) -/

/-- A binding with its installed basis. -/
structure Resolved where
  binding : Binding
  basis : Basis

/-- A checked context: the bindings resolved and the definitions with the root source first. -/
structure Installed where
  data : Context
  bindings : Dict Resolved
  definitions : List Source

/-- `definitions[id]`. -/
def findSource (definitions : List Source) (id : Text) : Option Source :=
  definitions.find? fun s => s.id = id

namespace Context

variable (host : Host)

/-- `arguments/3`. -/
def checkArguments (parameters : Dict ValueContract) (values : Dict (Scalar Int)) (l : Limits) :
    Checked Unit := do
  fields values parameters.keys
  Outcome.each (fun e => e.2.accepts host (jopt scalarData (values.get e.1)) l) parameters.entries

/-- `bases/3`. -/
def checkBases (registry : Registry) (l : Limits) : List Basis → List Basis → Checked (List Basis)
  | [], acc => .ok acc
  | b :: bs, acc => do
    let b ← b.new host registry l
    check (decide (b.id ∉ acc.map Basis.id)) .duplicateIdentity "/bases"
    checkBases registry l bs (acc ++ [b])

/-- The reduction of `definitions/4`. -/
def checkSources (p : Profile) (l : Limits) : List Source → List Source → Checked (List Source)
  | [], acc => .ok acc
  | s :: ss, acc => do
    let s ← s.new host p l
    check (decide (s.id ∉ acc.map Source.id)) .duplicateIdentity "/definitions"
    checkSources p l ss (acc ++ [s])

/-- `definitions/4`. -/
def checkDefinitions (values : List Source) (source : Source) (p : Profile) (l : Limits) :
    Checked (List Source) := do
  check (decide ((values.length : Int) < p.activeDefinitions)) .definitionBound "/definitions"
  checkSources host p l values [source]

/-- One binding of `bindings/4`. -/
def resolveBinding (bases : List Basis) (registry : Registry) (l : Limits) (name : Text)
    (b : Binding) : Checked Resolved := do
  text name "/bindings"
  registry.requireAll host [b.basis] l
  match bases.find? fun basis => basis.id = b.basis.id with
  | none => refusal .unknownBindingBasis "/bindings"
  | some basis =>
    check (decide (basis.ref = b.basis)) .unknownBindingBasis "/bindings"
    iri host b.thingId "/bindings/thing_id"
    let _ ← basis.domains host b.resourceRoles registry l
    .ok ⟨b, basis⟩

mutual
/-- `calls/1`: the invocations of a step, with their arguments. -/
def calls : Step → List (Text × Text × Dict Arg)
  | .invoke _ routineId revision arguments => [(routineId, revision, arguments)]
  | .sequence _ steps => callsList steps
  | .parallel _ branches => callsList branches
  | .ite _ _ yes no => calls yes ++ calls no
  | _ => []

/-- `Enum.flat_map(values, &calls/1)`. -/
def callsList : List Step → List (Text × Text × Dict Arg)
  | [] => []
  | s :: ss => calls s ++ callsList ss
end

/-- `revision/2`. -/
def checkRevision (definitions : List Source) (id revision : Text) : Checked Unit :=
  check (decide ((findSource definitions id).map Source.revision = some revision))
    .missingChildRevision "/definitions"

/-- Two contracts of one type, and of one dimension when they are integers. -/
def compatible : ValueContract → ValueContract → Bool
  | .integer a, .integer b => decide (a.dimension = b.dimension)
  | a, b => decide (a.typeText = b.typeText)

/-- `compilation_context.ex:136-146`. -/
def declaredArgument (parameters : Dict ValueContract) (target : ValueContract) (l : Limits) :
    Arg → Checked Unit
  | .parameter name =>
    check ((parameters.get name).any fun source => compatible source target)
      .incompatibleParameter "/arguments"
  | .scalar s => target.accepts host (scalarData s) l

variable (definitions : List Source) (l : Limits)

/-- `compilation_context.ex:123-134`. -/
def validateCalls (source : Source) : Checked Unit :=
  Outcome.each (fun call => do
    match findSource definitions call.1 with
    | none => .raise
    | some child =>
      fields call.2.2 child.parameters.keys
      Outcome.each (fun e =>
        match child.parameters.get e.1 with
        | none => .raise
        | some target => declaredArgument host source.parameters target l e.2) call.2.2.entries)
    (calls source.steps)

/-- `compilation_context.ex:104-114`. -/
def closure : Checked Unit := do
  Outcome.each (fun s : Source => Outcome.each (fun call => checkRevision definitions call.1 call.2.1)
    (calls s.steps)) definitions
  let next id := ((findSource definitions id).map fun s => (calls s.steps).map Prod.fst).getD []
  let ids := sortTexts (definitions.map Source.id)
  check (visitAll next (definitions.length + 1) ids [] []).isSome .recursiveInvocation "/definitions"
  Outcome.each (validateCalls host definitions l) definitions

/-- `CompilationContext.new/4`. -/
def resolve (c : Context) (source : Source) (p : Profile) (l : Limits) : Checked Installed := do
  let _ ← admitData host c.data l
  digest c.compilerBasis "/compiler_basis"
  let registry ← Registry.new host c.registry l
  let bases ← checkBases host registry l c.bases []
  let definitions ← checkDefinitions host c.definitions source p l
  fields c.bindings (definitions.flatMap Source.bindings).dedup
  let bindings ← c.bindings.traverse (resolveBinding host bases registry l)
  checkArguments host source.parameters c.arguments l
  closure host definitions l
  .ok ⟨c, bindings, definitions⟩

end Context

/-! ## Expansion (`expansion.ex`) -/

namespace Expansion

/-- The counters of the expansion. -/
structure Count where
  nodes : Int := 0
  predicates : Int := 0
  effects : Int := 0
  waits : Int := 0

/-- What an expansion reads: the context, the bounds, and the parameters and arguments of the
source it is in. -/
structure Env where
  installed : Installed
  profile : Profile
  limits : Limits
  parameters : Dict ValueContract
  args : Dict (Scalar Int)

variable (host : Host)

/-- `charge/3` on a counter: one more, below the maximum. -/
def charge (count maximum : Int) : Checked Int :=
  if count < maximum then .ok (count + 1) else refusal .expansionBound "/steps"

/-- `expansion.ex:250-268`. -/
def typedArgument (env : Env) (target : ValueContract) : Arg → Checked (Scalar Int)
  | .scalar s => do
    target.accepts host (scalarData s) env.limits
    .ok s
  | .parameter name =>
    let value := env.args.get name
    match env.parameters.get name, target with
    | some (.integer source), .integer unit => do
      let v ← source.convert host (jopt scalarData value) unit env.limits
      .ok (.num v)
    | some source, target => do
      check (decide (source.typeText = target.typeText)) .incompatibleParameter
      target.accepts host (jopt scalarData value) env.limits
      match value with
      | some s => .ok s
      | none => .raise
    | none, _ => refusal .incompatibleParameter

/-- `expansion.ex:270-283`. -/
def bindArguments (env : Env) (targets : Dict ValueContract) (inputs : Dict Arg) :
    Checked (Dict (Scalar Int)) :=
  inputs.traverse fun name input =>
    match targets.get name with
    | none => refusal .unknownParameter
    | some target => typedArgument host env target input

mutual
/-- `predicate/3` and `predicate_form/3`: the code of a predicate. -/
def predicate (env : Env) : Predicate → Count → Checked (List (Instr Int) × Count)
  | p, c => do
    let n ← charge c.predicates env.profile.predicateNodes
    let c := { c with predicates := n }
    match p with
    | .literal t => .ok ([.literal t], c)
    | .compare op binding value =>
      match env.installed.bindings.get binding with
      | none => .raise
      | some r => do
        check (decide (r.basis.affordance.type ≠ .action)) .incompatiblePredicate "/condition"
        check (decide (op = .eq) || decide (r.basis.value.typeText = "integer"))
          .incompatiblePredicate "/condition"
        let v ← typedArgument host env r.basis.value value
        r.basis.value.accepts host (scalarData v) env.limits
        .ok ([.compare op binding v], c)
    | .not arg => do
      let (code, c) ← predicate env arg c
      .ok (code ++ [.not], c)
    | .combine op args => do
      let (code, c) ← predicates env args c
      .ok (code ++ [.combine op args.length], c)

/-- The codes of several predicates, one after the other. -/
def predicates (env : Env) : List Predicate → Count → Checked (List (Instr Int) × Count)
  | [], c => .ok ([], c)
  | p :: ps, c => do
    let (code, c) ← predicate env p c
    let (rest, c) ← predicates env ps c
    .ok (code ++ rest, c)
end

/-- `trigger/2`. -/
def checkTrigger (env : Env) : Trigger Int → Checked Unit
  | .edge e =>
    match env.installed.bindings.get e.binding with
    | none => .raise
    | some r => do
      check (decide (r.basis.affordance.type ≠ .action)) .incompatibleTrigger "/trigger"
      match r.basis.value, e.hysteresis with
      | .boolean, none => .ok ()
      | .integer u, some h => do
        (ValueContract.integer u).accepts host (jint h.enter) env.limits
        (ValueContract.integer u).accepts host (jint h.exit) env.limits
      | _, _ => refusal .incompatibleTrigger "/trigger"
  | _ => .ok ()

/-- How an invocation at a path is expanded. -/
abbrev Invocation :=
  Env → (id routineId revision : Text) → Dict Arg → List Int → Count → Checked (Node Int × Count)

mutual
/-- `node/4` and `expand/4`; the path is kept from the root down. -/
def nodeWith (invocation : Invocation) (env : Env) : Step → List Int → Count → Checked (Node Int × Count)
  | s, path, c => do
    check (decide (path.length ≤ 32)) .pathBound
    let n ← charge c.nodes env.profile.expandedNodes
    let c := { c with nodes := n }
    match s with
    | .noop id => .ok (.noop id path, c)
    | .effect id binding input completion =>
      match env.installed.bindings.get binding with
      | none => .raise
      | some r => do
        check (decide (r.basis.affordance.operation = .writeproperty)
          || decide (r.basis.affordance.operation = .invokeaction)) .incompatibleEffect "/steps"
        check (decide (completion = r.basis.evidence.completion)) .incompatibleEffect "/steps"
        let v ← typedArgument host env r.basis.value input
        r.basis.value.accepts host (scalarData v) env.limits
        let n ← charge c.effects env.profile.effects
        .ok (.effect ⟨id, path, binding, v, completion, r.basis.evidence.reportContract⟩,
          { c with effects := n })
    | .sequence id steps => do
      let (children, c) ← childrenWith invocation env steps path 0 c
      .ok (.sequence id path children, c)
    | .parallel id branches => do
      let (children, c) ← childrenWith invocation env branches path 0 c
      .ok (.parallel id path children, c)
    | .ite id condition yes no => do
      let (code, c) ← predicate host env condition c
      let (yes, c) ← nodeWith invocation env yes (path ++ [0]) c
      let (no, c) ← nodeWith invocation env no (path ++ [1]) c
      .ok (.ite id path code yes no, c)
    | .wait id condition timeoutMs => do
      let n ← charge c.waits env.profile.waits
      let (code, c) ← predicate host env condition { c with waits := n }
      .ok (.wait id path code timeoutMs, c)
    | .delay id durationMs => do
      let n ← charge c.waits env.profile.waits
      .ok (.delay id path durationMs, { c with waits := n })
    | .invoke id routineId revision arguments =>
      invocation env id routineId revision arguments path c

/-- `children/4` from an index on. -/
def childrenWith (invocation : Invocation) (env : Env) :
    List Step → List Int → Int → Count → Checked (List (Node Int) × Count)
  | [], _, _, c => .ok ([], c)
  | s :: ss, path, index, c => do
    let (n, c) ← nodeWith invocation env s (path ++ [index]) c
    let (ns, c) ← childrenWith invocation env ss path (index + 1) c
    .ok (n :: ns, c)
end

/-- The invocation clause of `expand/4` with a number of invocations left below the profile's
depth. -/
def invoke : Nat → Invocation
  | 0 => fun _ _ _ _ _ _ _ => refusal .invocationBound "/steps"
  | depth + 1 => fun env id routineId revision arguments path c =>
    match findSource env.installed.definitions routineId with
    | none => .raise
    | some child => do
      let values ← bindArguments host env child.parameters arguments
      Context.checkArguments host child.parameters values env.limits
      let env := { env with parameters := child.parameters, args := values }
      let (code, c) ← predicate host env child.condition c
      let (body, c) ← nodeWith host (invoke depth) env child.steps (path ++ [0]) c
      .ok (.invoke ⟨id, path, routineId, revision, values, child.runMs⟩ code body, c)

/-- `expansion.ex:9-36`. -/
def build (source : Source) (installed : Installed) (p : Profile) (l : Limits) :
    Checked (IR Int) := do
  let env : Env := ⟨installed, p, l, source.parameters, installed.data.arguments⟩
  let (condition, c) ← predicate host env source.condition {}
  checkTrigger host env source.trigger
  let (steps, _) ← nodeWith host (invoke host p.invocationDepth.toNat) env source.steps [] c
  .ok ⟨condition, source.trigger, steps, source.runMs⟩

end Expansion

/-! ## Compilation and regeneration (`compiler.ex`) -/

namespace Compiler

variable (host : Host)

/-- The term whose hash is the source digest. -/
def sourceDigestData (source : Source) (context : Context) : Value :=
  .obj [("context", context.data), ("source", source.data)]

/-- The term whose hash is the IR digest. -/
def irDigestData (sourceDigest : Text) (ir : IR Num) (p : ProfileOf Num) : Value :=
  .obj [("compiler_profile", .str "wotex.routines.compiler@1"), ("ir", ir.data),
    ("profile", p.data), ("source_digest", .str sourceDigest)]

/-- `compiler.ex:45-77`. -/
def compile (source : Source) (context : Context) (p : Profile) (l : Limits) : Checked Program := do
  let p ← Profile.new p
  let l ← Limits.new l
  let source ← source.new host p l
  let installed ← context.resolve host source p l
  let ir ← Expansion.build host source installed p l
  let sourceDigest ← hash host (sourceDigestData source context) l
  let ir := ir.map Num.int
  let irDigest ← hash host (irDigestData sourceDigest ir (p.map Num.int)) l
  let program : Program :=
    ⟨source, context, p.map Num.int, l.map Num.int, sourceDigest, ir, irDigest⟩
  bounded host program.data l
  .ok program

def current (program : Program) (context : Context) (p : Profile) (l : Limits) : Checked Unit := do
  let _ ← admitData host program.data l
  let rebuilt ← compile host program.source context p l
  check (rebuilt.data.same program.data) .staleOrForgedProgram

def toMap (program : Program) (p : Profile) (l : Limits) : Checked Program := do
  let _ ← admitData host program.data l
  current host program program.context p l
  .ok program

end Compiler

end Wotex.Routines
