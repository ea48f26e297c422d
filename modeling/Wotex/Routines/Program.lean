import Wotex.Routines.Source

/-!
# Compiled programs: the expanded tree and its data

The IR of a program is the source with every parameter, binding and invocation resolved. Every
node carries its path from the root; the children of a node are numbered in order.

The IR is written over a type of numbers `ν`. The compiler produces `IR Int`. A retained program
comes back as JSON, where a number may be an integer or a float, so `Program` holds `IR Num`.
-/

namespace Wotex.Routines

open Wotex.Json (Value)

/-! ## Predicate code -/

/-- An instruction of the predicate machine. -/
inductive Instr (ν : Type) where
  | literal (t : Truth)
  | compare (op : Comparison) (binding : Text) (value : Scalar ν)
  | not
  | combine (op : Connective) (count : ν)

namespace Instr

variable {ν μ : Type}

/-- The numbers replaced. -/
def map (f : ν → μ) : Instr ν → Instr μ
  | literal t => literal t
  | compare op binding value => compare op binding (value.map f)
  | not => not
  | combine op count => combine op (f count)

variable {κ : Type} (f : ν → μ) (g : μ → κ)

@[simp] theorem map_map (i : Instr ν) : (i.map f).map g = i.map (g ∘ f) := by
  cases i <;> simp [map]

@[simp] theorem map_id (i : Instr ν) : i.map id = i := by
  cases i <;> simp [map]

theorem map_comp_map : Instr.map g ∘ Instr.map f = Instr.map (g ∘ f) := funext (map_map f g)

theorem map_id_fun : (Instr.map id : Instr ν → Instr ν) = id := funext map_id

/-- The items of the JSON form. -/
def items : Instr Num → List Value
  | literal t => [.str "literal", t.data]
  | compare op binding value => [.str op.text, .str binding, value.data]
  | not => [.str "not"]
  | combine op count => [.str op.text, .num count]

/-- The JSON form. -/
def data (i : Instr Num) : Value := .arr i.items

end Instr

/-- The JSON form of predicate code. -/
def codeData (code : List (Instr Num)) : Value := .arr (code.map Instr.data)

/-! ## The tree -/

/-- `"kind"` of a node. -/
inductive Kind where
  | noop | effect | sequence | parallel | ite | wait | delay | invoke
  deriving DecidableEq

/-- The name of a kind. -/
def Kind.text : Kind → Text
  | noop => "noop"
  | effect => "effect"
  | sequence => "sequence"
  | parallel => "parallel"
  | ite => "if"
  | wait => "wait"
  | delay => "delay"
  | invoke => "invoke"

/-- The members of an effect node. -/
structure EffectNode (ν : Type) where
  id : Text
  path : List ν
  binding : Text
  input : Scalar ν
  completion : Stage
  evidenceContract : Ref

/-- The members of an invocation outside its condition and body. -/
structure InvokeNode (ν : Type) where
  id : Text
  path : List ν
  routineId : Text
  revision : Text
  arguments : Dict (Scalar ν)
  runMs : ν

/-- A node of the expanded tree. -/
inductive Node (ν : Type) where
  | noop (id : Text) (path : List ν)
  | effect (e : EffectNode ν)
  | sequence (id : Text) (path : List ν) (steps : List (Node ν))
  | parallel (id : Text) (path : List ν) (branches : List (Node ν))
  | ite (id : Text) (path : List ν) (condition : List (Instr ν)) (yes no : Node ν)
  | wait (id : Text) (path : List ν) (condition : List (Instr ν)) (timeoutMs : ν)
  | delay (id : Text) (path : List ν) (durationMs : ν)
  | invoke (i : InvokeNode ν) (condition : List (Instr ν)) (body : Node ν)

section Tree

variable {ν μ : Type}

/-- The numbers replaced. -/
def EffectNode.map (f : ν → μ) (e : EffectNode ν) : EffectNode μ :=
  ⟨e.id, e.path.map f, e.binding, e.input.map f, e.completion, e.evidenceContract⟩

/-- The numbers replaced. -/
def InvokeNode.map (f : ν → μ) (i : InvokeNode ν) : InvokeNode μ :=
  ⟨i.id, i.path.map f, i.routineId, i.revision, i.arguments.map (Scalar.map f), f i.runMs⟩

namespace Node

/-- `node["path"]`. -/
def path : Node ν → List ν
  | noop _ p | sequence _ p _ | parallel _ p _ | ite _ p .. | wait _ p .. | delay _ p _ => p
  | effect e => e.path
  | invoke i .. => i.path

/-- `node["kind"]`. -/
def kind : Node ν → Kind
  | noop .. => .noop
  | effect _ => .effect
  | sequence .. => .sequence
  | parallel .. => .parallel
  | ite .. => .ite
  | wait .. => .wait
  | delay .. => .delay
  | invoke .. => .invoke

def children : Node ν → List (Node ν)
  | sequence _ _ steps => steps
  | parallel _ _ branches => branches
  | ite _ _ _ yes no => [yes, no]
  | invoke _ _ body => [body]
  | _ => []

mutual
/-- `ExecutionTree.nodes/1`: the tree in preorder. -/
def nodes : Node ν → List (Node ν)
  | n@(sequence _ _ steps) => n :: nodesList steps
  | n@(parallel _ _ branches) => n :: nodesList branches
  | n@(ite _ _ _ yes no) => n :: (nodes yes ++ nodes no)
  | n@(invoke _ _ body) => n :: nodes body
  | n => [n]

/-- `Enum.flat_map(children, &nodes/1)`. -/
def nodesList : List (Node ν) → List (Node ν)
  | [] => []
  | n :: ns => nodes n ++ nodesList ns
end

mutual
/-- The numbers replaced. -/
def map (f : ν → μ) : Node ν → Node μ
  | noop id p => noop id (p.map f)
  | effect e => effect (e.map f)
  | sequence id p steps => sequence id (p.map f) (mapList f steps)
  | parallel id p branches => parallel id (p.map f) (mapList f branches)
  | ite id p condition yes no =>
    ite id (p.map f) (condition.map (Instr.map f)) (yes.map f) (no.map f)
  | wait id p condition timeoutMs =>
    wait id (p.map f) (condition.map (Instr.map f)) (f timeoutMs)
  | delay id p durationMs => delay id (p.map f) (f durationMs)
  | invoke i condition body => invoke (i.map f) (condition.map (Instr.map f)) (body.map f)

/-- The numbers of several trees replaced. -/
def mapList (f : ν → μ) : List (Node ν) → List (Node μ)
  | [] => []
  | n :: ns => n.map f :: mapList f ns
end

mutual
@[simp] theorem map_map {κ : Type} (f : ν → μ) (g : μ → κ) : ∀ n : Node ν, (n.map f).map g = n.map (g ∘ f)
  | noop .. | delay .. => by simp [map]
  | effect e => by simp [map, EffectNode.map]
  | sequence _ _ steps => by simp [map, mapList_map f g steps]
  | parallel _ _ branches => by simp [map, mapList_map f g branches]
  | ite _ _ _ yes no => by
    simp [map, map_map f g yes, map_map f g no]
  | wait .. => by simp [map]
  | invoke _ _ body => by
    simp [map, InvokeNode.map, map_map f g body, Function.comp_def]

theorem mapList_map {κ : Type} (f : ν → μ) (g : μ → κ) :
    ∀ ns : List (Node ν), mapList g (mapList f ns) = mapList (g ∘ f) ns
  | [] => rfl
  | n :: ns => by simp [mapList, map_map f g n, mapList_map f g ns]
end

mutual
@[simp] theorem map_id : ∀ n : Node ν, n.map id = n
  | noop .. | delay .. => by simp [map]
  | effect e => by simp [map, EffectNode.map]
  | sequence _ _ steps => by simp [map, mapList_id steps]
  | parallel _ _ branches => by simp [map, mapList_id branches]
  | ite _ _ _ yes no => by simp [map, map_id yes, map_id no, Instr.map_id_fun]
  | wait .. => by simp [map, Instr.map_id_fun]
  | invoke _ _ body => by
    have hs : (Scalar.map id : Scalar ν → Scalar ν) = id := funext Scalar.map_id
    simp [map, InvokeNode.map, map_id body, Instr.map_id_fun, hs]

theorem mapList_id : ∀ ns : List (Node ν), mapList id ns = ns
  | [] => rfl
  | n :: ns => by simp [mapList, map_id n, mapList_id ns]
end

@[simp] theorem path_map (f : ν → μ) (n : Node ν) : (n.map f).path = n.path.map f := by
  cases n <;> rfl

mutual
theorem nodes_map (f : ν → μ) : ∀ n : Node ν, (n.map f).nodes = n.nodes.map (map f)
  | noop .. | effect _ | wait .. | delay .. => rfl
  | sequence _ _ steps => by simp [map, nodes, nodesList_map f steps]
  | parallel _ _ branches => by simp [map, nodes, nodesList_map f branches]
  | ite _ _ _ yes no => by simp [map, nodes, nodes_map f yes, nodes_map f no]
  | invoke _ _ body => by simp [map, nodes, nodes_map f body]

theorem nodesList_map (f : ν → μ) :
    ∀ ns : List (Node ν), nodesList (mapList f ns) = (nodesList ns).map (map f)
  | [] => rfl
  | n :: ns => by simp [mapList, nodesList, nodes_map f n, nodesList_map f ns]
end

end Node

end Tree

/-- The JSON form of a path. -/
def pathData (p : List Num) : Value := .arr (p.map .num)

def EffectNode.data (e : EffectNode Num) : Value :=
  .obj [("binding", .str e.binding), ("completion", .str e.completion.text),
    ("evidence_contract", e.evidenceContract.data), ("id", .str e.id), ("input", e.input.data),
    ("kind", .str "effect"), ("path", pathData e.path)]

mutual
def Node.data : Node Num → Value
  | .noop id p => .obj [("id", .str id), ("kind", .str "noop"), ("path", pathData p)]
  | .effect e => e.data
  | .sequence id p steps =>
    .obj [("id", .str id), ("kind", .str "sequence"), ("path", pathData p),
      ("steps", .arr (Node.dataList steps))]
  | .parallel id p branches =>
    .obj [("branches", .arr (Node.dataList branches)), ("id", .str id), ("kind", .str "parallel"),
      ("path", pathData p)]
  | .ite id p condition yes no =>
    .obj [("condition", codeData condition), ("else", no.data), ("id", .str id),
      ("kind", .str "if"), ("path", pathData p), ("then", yes.data)]
  | .wait id p condition timeoutMs =>
    .obj [("condition", codeData condition), ("id", .str id), ("kind", .str "wait"),
      ("path", pathData p), ("timeout_ms", .num timeoutMs)]
  | .delay id p durationMs =>
    .obj [("duration_ms", .num durationMs), ("id", .str id), ("kind", .str "delay"),
      ("path", pathData p)]
  | .invoke i condition body =>
    .obj [("arguments", .obj (i.arguments.map Scalar.data).entries), ("body", body.data),
      ("condition", codeData condition), ("id", .str i.id), ("kind", .str "invoke"),
      ("path", pathData i.path), ("revision", .str i.revision),
      ("routine_id", .str i.routineId), ("run_ms", .num i.runMs)]

/-- The JSON forms of nodes. -/
def Node.dataList : List (Node Num) → List Value
  | [] => []
  | n :: ns => n.data :: Node.dataList ns
end

/-! ## Programs -/

/-- `"ir"`; `"overlap"` is always `"reject"`. -/
structure IR (ν : Type) where
  condition : List (Instr ν)
  trigger : Trigger ν
  steps : Node ν
  runMs : ν

/-- The numbers replaced. -/
def IR.map {ν μ : Type} (f : ν → μ) (ir : IR ν) : IR μ :=
  ⟨ir.condition.map (Instr.map f), ir.trigger.map f, ir.steps.map f, f ir.runMs⟩

@[simp] theorem IR.map_map {ν μ κ : Type} (f : ν → μ) (g : μ → κ) (ir : IR ν) :
    (ir.map f).map g = ir.map (g ∘ f) := by
  simp [IR.map]

@[simp] theorem IR.map_id {ν : Type} (ir : IR ν) : ir.map id = ir := by
  simp [IR.map, Instr.map_id_fun]

theorem IR.map_injective {ν μ : Type} [Nonempty ν] {f : ν → μ} (hf : Function.Injective f) :
    Function.Injective (IR.map f) := by
  obtain ⟨g, hg⟩ := hf.hasLeftInverse
  refine Function.LeftInverse.injective (g := IR.map g) fun ir => ?_
  rw [IR.map_map, hg.comp_eq_id, IR.map_id]

def IR.data (ir : IR Num) : Value :=
  .obj [("condition", codeData ir.condition), ("overlap", .str "reject"),
    ("run_ms", .num ir.runMs), ("steps", ir.steps.data), ("trigger", ir.trigger.data)]

/-- A binding of the context. -/
structure Binding where
  basis : Ref
  thingId : Text
  resourceRoles : Dict Text

def Binding.data (b : Binding) : Value :=
  .obj [("basis", b.basis.data), ("resource_roles", Basis.rolesData b.resourceRoles),
    ("thing_id", .str b.thingId)]

/-- The compilation context, as given. -/
structure Context where
  registry : Registry
  bases : List Basis
  bindings : Dict Binding
  definitions : List Source
  arguments : Dict (Scalar Int)
  compilerBasis : Text

def Context.data (c : Context) : Value :=
  .obj [("arguments", .obj (c.arguments.map scalarData).entries),
    ("bases", .arr (c.bases.map Basis.data)),
    ("bindings", .obj (c.bindings.map Binding.data).entries),
    ("compiler_basis", .str c.compilerBasis),
    ("definitions", .arr (c.definitions.map Source.data)), ("registry", c.registry.data)]

/-- `Wotex.Routines.Program`: the compiler's inputs, the IR and the digests. The numbers of the
profile, the limits and the IR are those of the retained JSON; `"format"` and
`"compiler_profile"` have one value each. -/
structure Program where
  source : Source
  context : Context
  profile : ProfileOf Num
  limits : LimitsOf Num
  sourceDigest : Text
  ir : IR Num
  irDigest : Text

def Program.data (p : Program) : Value :=
  .obj [("compiler_profile", .str "wotex.routines.compiler@1"), ("context", p.context.data),
    ("format", .str "wotex.routines.program@1"), ("ir", p.ir.data), ("ir_digest", .str p.irDigest),
    ("json_limits", p.limits.data), ("profile", p.profile.data), ("source", p.source.data),
    ("source_digest", .str p.sourceDigest)]

end Wotex.Routines
