import Shading.Emission
import Shading.Wgsl.Lower
import Shading.Wgsl.Module

/-!
# Emission of WGSL

From an entry point to a module.  Only what the entry point uses is declared.  When more than a
single value flows out of the entry function, or varyings flow in, they go through structs.
-/

namespace Shading.Wgsl

/-- How a module is emitted. -/
structure Options where
  /-- Map the depth of vertex outputs from `[-1, 1]` to `[0, 1]`. -/
  remapDepth : Bool
  /-- The entry point of the other stage with which varyings and bindings are to agree. -/
  peer : Option String
  deriving DecidableEq, Repr

def Options.default : Options :=
  ⟨false, none⟩

/-- Whether some exit of the entry point carries no value. -/
def leavesBare (u : Usage) : Bool :=
  u.returnsVoid || !u.returnsValue

def flow (e : Emission) (remapDepth : Bool) : Flow :=
  match e.stage with
  | .vertex =>
    .vertex (remapDepth || leavesBare e.usage || !e.usage.varyings.isEmpty ||
      e.usesBuiltin .position) remapDepth
  | .fragment =>
    .fragment (!e.usage.varyings.isEmpty)
      (leavesBare e.usage || !e.usage.outputs.isEmpty || e.usesBuiltin .fragColor)
      (e.primaryOutput?.getD "color")

/-! ### Declarations -/

def fieldMember : Field → Member
  | .value name t => ⟨[], name, .ofTy t⟩
  | .nested name s length => ⟨[], name, ⟨.named s.name, length.toList⟩⟩

def structOf (s : StructDef) : Struct :=
  ⟨s.name, s.fields.map fieldMember⟩

/-- The structs of the used struct uniforms, dependencies first. -/
def structs (e : Emission) : Except Error (List Struct) := do
  let used ← e.usage.uniformStructs.toList.mapM e.decls.uniformStruct
  let merged := used.foldl (fun known u ↦ StructDef.merge known u.struct.withDependencies) []
  return merged.map structOf

def uniformPoint (e : Emission) (name : String) : Except Error BindingPoint :=
  match e.layout.uniform? name with
  | some p => return p
  | none => throw (.noBinding name)

def samplerSlots (e : Emission) (name : String) : Except Error SamplerSlots :=
  match e.layout.sampler? name with
  | some s => return s
  | none => throw (.noBinding name)

/-- The name of the sampler object of a texture. -/
def samplerObject (name : String) : String :=
  name ++ "_sampler"

def bindingResources (e : Emission) : Handle → Except Error (List Resource)
  | .uniform name => do
    let decl ← e.decls.uniform name
    let point ← uniformPoint e name
    return [⟨point.group, point.index, true, name, .ofTy decl.type⟩]
  | .uniformStruct name => do
    let decl ← e.decls.uniformStruct name
    let point ← uniformPoint e name
    return [⟨point.group, point.index, true, name, .named decl.struct.name⟩]
  | .sampler name => do
    let decl ← e.decls.sampler name
    let slots ← samplerSlots e name
    let texture := ⟨slots.group, slots.texture, false, name, .named (textureType decl.kind)⟩
    let object := slots.object.toList.map fun i ↦
      ⟨slots.group, i, false, samplerObject name, .named "sampler"⟩
    return texture :: object
  | _ => return []

def resources (e : Emission) : Except Error (List Resource) :=
  return (← e.usage.bindings.toList.mapM (bindingResources e)).flatten

def constants (e : Emission) (flow : Flow) : Except Error (List Code.Constant) :=
  e.usage.constants.toList.mapM fun i ↦ do
    (target (.entry flow)).constant i (← e.decls.constant i)

def functions (e : Emission) : Except Error (List Code.Function) :=
  e.usage.helpers.toList.mapM fun name ↦ do
    (target (.helper e.stage)).function name (← e.decls.helper name)

/-! ### Interface -/

/-- How a varying is interpolated.  Integers are flat; a sampling alone asks for perspective; flat
varyings have no sampling. -/
def interpolateAttribute (decl : VaryingDecl) : List Attribute :=
  let interpolation :=
    if decl.type.isIntegral then some Interpolation.flat
    else match decl.interpolation with
      | some i => some i
      | none => decl.sampling.map fun _ ↦ .perspective
  match interpolation with
  | none => []
  | some .flat => [.interpolate .flat none]
  | some i => [.interpolate i decl.sampling]

def varyingField (e : Emission) (name : String) (location : Nat) : Except Error Member := do
  let decl ← e.decls.varying name
  return ⟨.location location :: interpolateAttribute decl, name, .ofTy decl.type⟩

def varyingFields (e : Emission) : Except Error (List Member) :=
  e.varyingsByLocation.mapM fun (name, location) ↦ varyingField e name location

def vector4 : Code.TypeName :=
  .ofTy (.ofPrim (.vector .float .four))

def positionField : Member :=
  ⟨[.builtin "position"], "position", vector4⟩

/-- The built-in inputs that a fragment entry point uses. -/
def fragmentBuiltins (e : Emission) : List Member :=
  (if e.usesBuiltin .fragCoord then [⟨[.builtin "position"], "frag_coord", vector4⟩] else []) ++
    (if e.usesBuiltin .frontFacing then
      [⟨[.builtin "front_facing"], "front_facing", .ofTy .bool⟩] else [])

def outputField (e : Emission) (name : String) (location : Nat) : Except Error Member := do
  let decl ← e.decls.output name
  return ⟨[.location location], name, .ofTy decl.type⟩

/-- The fields of the fragment output: the used outputs, or else one for the colour. -/
def outputFields (e : Emission) : Except Error (List Member) :=
  match e.outputsByLocation with
  | [] => return [⟨[.location 0], "color", vector4⟩]
  | used => used.mapM fun (name, location) ↦ outputField e name location

def vertexOutput : String := "VertexOutput"

def fragmentInputName : String := "FragmentInput"

def fragmentOut : String := "FragmentOut"

def interface (e : Emission) : Flow → Except Error (List Struct)
  | .vertex output _ => do
    if output then return [⟨vertexOutput, positionField :: (← varyingFields e)⟩] else return []
  | .fragment input output _ => do
    let inputs ← if input then
        pure [⟨fragmentInputName, fragmentBuiltins e ++ (← varyingFields e)⟩]
      else pure []
    let outputs ← if output then pure [⟨fragmentOut, ← outputFields e⟩] else pure []
    return inputs ++ outputs

/-! ### Entry function -/

def attributeParam (e : Emission) (name : String) (location : Nat) : Except Error Member := do
  let decl ← e.decls.vertexAttribute name
  return ⟨[.location location], name, .ofTy decl.type⟩

def indexParam (b : String) : Member :=
  ⟨[.builtin b], b, .ofTy (.ofPrim (.vector .uint .one))⟩

def params (e : Emission) : Flow → Except Error (List Member)
  | .vertex .. => do
    let attributes ← (Layout.sortByLocation e.layout.attributes).mapM fun (name, location) ↦
      attributeParam e name location
    return attributes ++
      (if e.usesBuiltin .vertexId then [indexParam "vertex_index"] else []) ++
      (if e.usesBuiltin .instanceId then [indexParam "instance_index"] else [])
  | .fragment true _ _ => return [⟨[], "input", .named fragmentInputName⟩]
  | .fragment false _ _ => return fragmentBuiltins e

def result : Flow → List Attribute × Code.TypeName
  | .vertex true _ => ([], .named vertexOutput)
  | .vertex false _ => ([.builtin "position"], vector4)
  | .fragment _ true _ => ([], .named fragmentOut)
  | .fragment _ false _ => ([.location 0], vector4)

/-- Variables at the start of the entry function. -/
def locals (e : Emission) : Flow → List Code.Statement
  | .vertex output _ =>
    (if output then [.declare (.named vertexOutput) "output" none] else []) ++
      (if e.usesBuiltin .pointSize then
        [.declare (.ofTy .float) "point_size" (some (.word "1.0"))] else [])
  | .fragment _ output _ =>
    if output then [.declare (.named fragmentOut) "frag_out" none] else []

def entryFunction (e : Emission) (flow : Flow) : Except Error EntryFunction := do
  let params ← params e flow
  let body ← (target (.entry flow)).block e.body
  let last := if e.body.endsWithLeave then [] else tail flow
  let (attributes, type) := result flow
  return ⟨e.stage, e.name, params, attributes, type, locals e flow ++ body ++ last⟩

/-- The module of an entry point. -/
def emit (e : Emission) (o : Options) : Except Error Module := do
  let flow := flow e (o.remapDepth && e.stage = .vertex)
  let structs ← structs e
  let resources ← resources e
  let constants ← constants e flow
  let functions ← functions e
  let interface ← interface e flow
  let entry ← entryFunction e flow
  return ⟨structs, resources, constants, functions, interface, entry⟩

/-- The text of an expression on its own. -/
def exprText (e : Expr) : Except Error String :=
  return (← lower .standalone e).text

end Shading.Wgsl
