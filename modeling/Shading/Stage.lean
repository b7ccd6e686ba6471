/-!
# Shader stages and their built-in values

A shader program has vertex entry points and fragment entry points.  Each stage has values that the
graphics pipeline provides or consumes under fixed names.
-/

namespace Shading

inductive Stage where
  | vertex
  | fragment
  deriving DecidableEq, Repr

def Stage.text : Stage → String
  | vertex => "vertex"
  | fragment => "fragment"

/-- Values the pipeline exchanges with a stage. -/
inductive Builtin where
  /-- Index of the vertex being processed. -/
  | vertexId
  /-- Index of the instance being processed. -/
  | instanceId
  /-- Clip-space position of the vertex. -/
  | position
  /-- Size of the rasterised point. -/
  | pointSize
  /-- Window coordinates of the fragment. -/
  | fragCoord
  /-- Whether the fragment belongs to a front-facing primitive. -/
  | frontFacing
  /-- Colour of the fragment. -/
  | fragColor
  deriving DecidableEq, Repr

namespace Builtin

def stage : Builtin → Stage
  | vertexId => .vertex
  | instanceId => .vertex
  | position => .vertex
  | pointSize => .vertex
  | fragCoord => .fragment
  | frontFacing => .fragment
  | fragColor => .fragment

/-- Whether the stage writes the value rather than reads it. -/
def isOutput : Builtin → Bool
  | position => true
  | pointSize => true
  | fragColor => true
  | _ => false

/-- Name of the value in a report on a use in the wrong stage. -/
def text : Builtin → String
  | vertexId => "vertex_id"
  | instanceId => "instance_id"
  | position => "position"
  | pointSize => "point_size"
  | fragCoord => "frag_coord"
  | frontFacing => "front_facing"
  | fragColor => "color"

/-- Short name of the value within its stage. -/
def label : Builtin → String
  | vertexId => "VertexID"
  | instanceId => "InstanceID"
  | position => "Position"
  | pointSize => "PointSize"
  | fragCoord => "FragCoord"
  | frontFacing => "FrontFacing"
  | fragColor => "FragColor"

/-- Name of the value together with its stage. -/
def qualified (b : Builtin) : String :=
  match b.stage with
  | .vertex => "Vertex(" ++ b.label ++ ")"
  | .fragment => "Fragment(" ++ b.label ++ ")"

end Builtin

end Shading
