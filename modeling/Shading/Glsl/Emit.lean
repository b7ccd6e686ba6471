import Shading.Emission
import Shading.Glsl.BlockName
import Shading.Glsl.Lower
import Shading.Glsl.Shader

/-!
# Emission of GLSL

From an entry point to a shader.  Only what the entry point uses is declared.
-/

namespace Shading.Glsl

/-- How a shader is emitted. -/
structure Options where
  version : Version
  /-- Default precision of floats in fragment shaders. -/
  precision : Option Precision
  deriving DecidableEq, Repr

def Options.default : Options :=
  ⟨.es300, some .high⟩

/-- What the colour of a fragment is written to. -/
def fragColor (e : Emission) (v : Version) : Code.Expr :=
  match v, e.primaryOutput? with
  | .es100, some name => fragData (e.outputLocation name)
  | .es100, none => .word "gl_FragColor"
  | .es300, some name => .word name
  | .es300, none => .word "color"

def context (e : Emission) (v : Version) : Context :=
  ⟨v, fragColor e v, e.outputLocation⟩

/-! ### Declarations -/

def header (e : Emission) (o : Options) : List Directive :=
  let isVolume (name : String) : Bool :=
    match e.decls.samplers.get? name with
    | some s => s.kind = .volume
    | none => false
  let start := match o.version with
    | .es300 => [Directive.version300]
    | .es100 =>
      (if e.usage.samplers.toList.any isVolume then
        [Directive.extension "GL_OES_texture_3D" "enable"] else []) ++
      (if e.outputsByLocation.any (0 < ·.2) then
        [Directive.extension "GL_EXT_draw_buffers" "require"] else [])
  let precision := match e.stage, o.precision with
    | .fragment, some p => [Directive.precision p]
    | _, _ => []
  start ++ precision

def inputGlobal (e : Emission) (v : Version) (name : String) : Except Error Global := do
  let decl ← e.decls.vertexAttribute name
  let location := match v with
    | .es100 => none
    | .es300 => some ((e.layout.attribute? name).getD 0)
  return .input location (← typeName v decl.type) name

/-- The qualifiers of a varying.  Integers are flat unless something else is asked for. -/
def varyingQualifiers (stage : Stage) (decl : VaryingDecl) : VaryingQualifiers :=
  let interpolation := match decl.interpolation with
    | some i => some i
    | none => if decl.type.isIntegral then some .flat else none
  ⟨interpolation, decl.sampling, stage⟩

def varyingGlobal (e : Emission) (v : Version) (name : String) : Except Error Global := do
  let decl ← e.decls.varying name
  let qualifiers := match v with
    | .es100 => none
    | .es300 => some (varyingQualifiers e.stage decl)
  return .varying qualifiers (← typeName v decl.type) name

/-- Attributes of a vertex entry point, and varyings. -/
def inputs (e : Emission) (v : Version) : Except Error (List Global) := do
  let attributes ← match e.stage with
    | .vertex => e.usage.attributes.toList.mapM (inputGlobal e v)
    | .fragment => pure []
  let varyings ← e.varyingsByLocation.mapM fun (name, _) ↦ varyingGlobal e v name
  return attributes ++ varyings

def colorOutput : Global :=
  .output 0 (.ofTy (.ofPrim (.vector .float .four))) "color"

def outputGlobal (e : Emission) (v : Version) (name : String) (location : Nat) :
    Except Error Global := do
  let decl ← e.decls.output name
  return .output location (← typeName v decl.type) name

/-- Fragment outputs.  Version 1.00 has fixed ones and declares none; without any used output there
is one for the colour if a colour is written. -/
def outputs (e : Emission) (v : Version) : Except Error (List Global) :=
  match e.stage, v with
  | .fragment, .es300 =>
    match e.outputsByLocation with
    | [] => return if e.usage.returnsValue || e.usesBuiltin .fragColor then [colorOutput] else []
    | used => used.mapM fun (name, location) ↦ outputGlobal e v name location
  | _, _ => return []

/-! ### Uniforms -/

def fieldGlobal (v : Version) : Field → Except Error (Code.TypeName × String)
  | .value name t => return (← typeName v t, name)
  | .nested name s length => return (⟨.named s.name, length.toList⟩, name)

def structFields (v : Version) (s : StructDef) : Except Error (List (Code.TypeName × String)) :=
  s.fields.mapM (fieldGlobal v)

/-- The struct uniforms that are used, by instance. -/
def usedStructs (e : Emission) : Except Error (List (String × StructDef)) :=
  e.usage.uniformStructs.toList.mapM fun name ↦ return (name, (← e.decls.uniformStruct name).struct)

/-- The structs that a struct uniform needs declared: in version 3.00 it is itself a block, so only
those that it nests. -/
def neededStructs (v : Version) (s : StructDef) : List StructDef :=
  match v with
  | .es100 => s.withDependencies
  | .es300 => s.withDependencies.dropLast

def declaredStructs (v : Version) (used : List (String × StructDef)) : List StructDef :=
  used.foldl (fun known (_, s) ↦ StructDef.merge known (neededStructs v s)) []

def structGlobal (v : Version) (s : StructDef) : Except Error Global :=
  return .struct s.name (← structFields v s)

def bindingGlobal (e : Emission) (v : Version) (blocks : List (String × String)) :
    Handle → Except Error (List Global)
  | .uniform name => do
    let decl ← e.decls.uniform name
    return [.uniform (← typeName v decl.type) name]
  | .uniformStruct name => do
    let decl ← e.decls.uniformStruct name
    match v with
    | .es100 => return [.uniform (.named decl.struct.name) name]
    | .es300 =>
      let block := (blocks.lookup name).getD decl.struct.name
      return [.block block (← structFields v decl.struct) name]
  | .sampler name => do
    let decl ← e.decls.sampler name
    return [.uniform (.named (← samplerType v decl.kind)) name]
  | _ => return []

def uniforms (e : Emission) (v : Version) : Except Error (List Global) := do
  let used ← usedStructs e
  let structs := declaredStructs v used
  let layout := match v, used with
    | .es300, _ :: _ => [Global.blockLayout]
    | _, _ => []
  let declared ← structs.mapM (structGlobal v)
  let blocks := blockNames (structs.map StructDef.name) (used.map fun (n, s) ↦ (n, s.name))
  let bindings ← e.usage.bindings.toList.mapM (bindingGlobal e v blocks)
  return layout ++ declared ++ bindings.flatten

/-! ### Code -/

def constants (e : Emission) (v : Version) : Except Error (List Code.Constant) :=
  e.usage.constants.toList.mapM fun i ↦ do
    (target (context e v) (.entry e.stage)).constant i (← e.decls.constant i)

def functions (e : Emission) (v : Version) : Except Error (List Code.Function) :=
  e.usage.helpers.toList.mapM fun name ↦ do
    (target (context e v) .helper).function name (← e.decls.helper name)

/-- The shader of an entry point. -/
def emit (e : Emission) (o : Options) : Except Error Shader := do
  let inputs ← inputs e o.version
  let outputs ← outputs e o.version
  let uniforms ← uniforms e o.version
  let constants ← constants e o.version
  let functions ← functions e o.version
  let main ← (target (context e o.version) (.entry e.stage)).block e.body
  return ⟨header e o, inputs, outputs, uniforms, constants, functions, main⟩

/-- The text of an expression on its own. -/
def exprText (e : Expr) : Except Error String :=
  return (← lower .standalone e).text

end Shading.Glsl
