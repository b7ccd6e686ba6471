import Shading.Error
import Shading.Layout.Basic

/-!
# Handing out indices

Explicitly requested indices are claimed first; no two requests may claim the same one.  Every other
request then takes the lowest index that is free, in order.
-/

namespace Shading.Layout

/-- The least number that is not in the list. -/
def lowestFree (taken : List Nat) : Nat :=
  ((List.range (taken.length + 1)).find? (· ∉ taken)).getD 0

/-! ### Locations -/

/-- Claim an index for a name, unless another name has it. -/
def claim (space : IndexSpace) (claimed : List (Nat × String)) (index : Nat) (name : String) :
    Except Error (List (Nat × String)) :=
  match claimed.lookup index with
  | none => return claimed ++ [(index, name)]
  | some first =>
    if first = name then return claimed else throw (.indexCollision space index first name)

def claimLocations (kind : DeclKind) (claimed : List (Nat × String)) :
    List (String × Option Nat) → Except Error (List (Nat × String))
  | [] => return claimed
  | (_, none) :: rest => claimLocations kind claimed rest
  | (name, some index) :: rest => do
    claimLocations kind (← claim (.location kind) claimed index name) rest

/-- Give every request its location, when the explicit ones are among the taken ones. -/
def fillLocations (taken : List Nat) : List (String × Option Nat) → List (String × Nat)
  | [] => []
  | (name, some index) :: rest => (name, index) :: fillLocations taken rest
  | (name, none) :: rest =>
    let index := lowestFree taken
    (name, index) :: fillLocations (index :: taken) rest

/-- Hand out the locations of one kind of resource. -/
def allocateLocations (kind : DeclKind) (requests : List (String × Option Nat)) :
    Except Error (List (String × Nat)) := do
  let claimed ← claimLocations kind [] requests
  return fillLocations (claimed.map Prod.fst) requests

/-! ### Bindings -/

/-- What a resource needs to be bound. -/
inductive Need where
  /-- One slot for a uniform or a struct uniform. -/
  | buffer
  /-- One slot for a texture. -/
  | texture
  /-- One slot for a texture and one for its sampler object. -/
  | filteredTexture
  deriving DecidableEq, Repr

structure BindingRequest where
  name : String
  need : Need
  group : Nat
  index : Option Nat
  deriving DecidableEq, Repr

/-- Bindings are numbered with 32 bits. -/
def indexLimit : Nat := 4294967296

/-- A claimed slot: its group, its index and who claimed it. -/
structure Claim where
  group : Nat
  index : Nat
  name : String
  deriving DecidableEq, Repr

def claimSlot (claimed : List Claim) (c : Claim) : Except Error (List Claim) :=
  match claimed.find? fun o ↦ o.group = c.group ∧ o.index = c.index with
  | none => return claimed ++ [c]
  | some first =>
    if first.name = c.name then return claimed
    else throw (.indexCollision (.binding c.group) c.index first.name c.name)

/-- Claim the slots of an explicit request.  The sampler object comes right after its texture. -/
def claimRequest (claimed : List Claim) (r : BindingRequest) (index : Nat) :
    Except Error (List Claim) := do
  let claimed ← claimSlot claimed ⟨r.group, index, r.name⟩
  if r.need = .filteredTexture then
    if index + 1 < indexLimit then claimSlot claimed ⟨r.group, index + 1, r.name⟩
    else throw (.noSamplerObject r.name index)
  else return claimed

def claimBindings (claimed : List Claim) : List BindingRequest → Except Error (List Claim)
  | [] => return claimed
  | r :: rest =>
    match r.index with
    | none => claimBindings claimed rest
    | some index => do claimBindings (← claimRequest claimed r index) rest

/-- The slots of one resource. -/
inductive Slots where
  | buffer (point : BindingPoint)
  | texture (slots : SamplerSlots)
  deriving DecidableEq, Repr

/-- Indices of one group among the taken slots. -/
def takenIn (group : Nat) (taken : List (Nat × Nat)) : List Nat :=
  (taken.filter (·.1 = group)).map Prod.snd

/-- The slots of a request, and the slots it newly takes. -/
def fillRequest (taken : List (Nat × Nat)) (r : BindingRequest) : Slots × List (Nat × Nat) :=
  let used := takenIn r.group taken
  match r.index, r.need with
  | some i, .buffer => (.buffer ⟨r.group, i⟩, [])
  | some i, .texture => (.texture ⟨r.group, i, none⟩, [])
  | some i, .filteredTexture => (.texture ⟨r.group, i, some (i + 1)⟩, [])
  | none, .buffer =>
    let i := lowestFree used
    (.buffer ⟨r.group, i⟩, [(r.group, i)])
  | none, .texture =>
    let i := lowestFree used
    (.texture ⟨r.group, i, none⟩, [(r.group, i)])
  | none, .filteredTexture =>
    let i := lowestFree used
    let j := lowestFree (i :: used)
    (.texture ⟨r.group, i, some j⟩, [(r.group, i), (r.group, j)])

def fillBindings (taken : List (Nat × Nat)) : List BindingRequest → List (String × Slots)
  | [] => []
  | r :: rest =>
    let (slots, fresh) := fillRequest taken r
    (r.name, slots) :: fillBindings (fresh ++ taken) rest

/-- Hand out bindings, in every group on its own. -/
def allocateBindings (requests : List BindingRequest) : Except Error (List (String × Slots)) := do
  let claimed ← claimBindings [] requests
  return fillBindings (claimed.map fun c ↦ (c.group, c.index)) requests

end Shading.Layout
