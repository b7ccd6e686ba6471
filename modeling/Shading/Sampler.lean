import Shading.Type

/-!
# Samplers

A sampler is a texture that a shader reads.  The filtered kinds are sampled at float coordinates and
need a separate sampler object in WGSL; the others are read texel by texel.
-/

namespace Shading

inductive SamplerKind where
  | plane
  | planeArray
  | volume
  | depth
  | unsigned
  deriving DecidableEq, Repr

namespace SamplerKind

/-- Whether the kind is filtered, so that it comes with a separate sampler object in WGSL. -/
def isPaired : SamplerKind → Bool
  | plane => true
  | planeArray => true
  | volume => true
  | depth => false
  | unsigned => false

/-- Type of a value read from the texture. -/
def texel : SamplerKind → Ty
  | depth => .float
  | unsigned => .ofPrim (.vector .uint .four)
  | _ => .ofPrim (.vector .float .four)

def label : SamplerKind → String
  | plane => "Sampler2D"
  | planeArray => "Sampler2DArray"
  | volume => "Sampler3D"
  | depth => "Depth"
  | unsigned => "Unsigned"

end SamplerKind

end Shading
