import Shading.Glsl.Emit
import Shading.Usage.Walk
import Shading.Wgsl.Emit

/-!
# Queries

Questions about the entry points of a program.  The first question about an entry point records its
body, and the first one that needs to know what it uses analyzes it; the outcomes, failures
included, are kept in the program and answer all later questions.  A failed query keeps them too.
-/

namespace Shading

namespace EntryPoint

/-- The outcome of the recording, which takes place at most once. -/
def recordOnce (e : EntryPoint) : Except Error Block × EntryPoint :=
  match e.recorded with
  | some outcome => (outcome, e)
  | none =>
    let outcome := e.record
    (outcome, { e with recorded := some outcome })

/-- The outcome of the analysis, which takes place at most once. -/
def analyzeOnce (d : Declarations) (e : EntryPoint) : Except Error Usage × EntryPoint :=
  match e.analyzed with
  | some outcome => (outcome, e)
  | none =>
    let (recorded, e) := e.recordOnce
    let outcome := recorded.bind (Usage.of d e.stage)
    (outcome, { e with analyzed := some outcome })

end EntryPoint

/-- A varying that a fragment entry point reads but its vertex entry point never writes. -/
structure Warning where
  varying : String
  deriving DecidableEq, Repr

def Warning.message (w : Warning) : String :=
  "varying " ++ w.varying ++
    " is read by the fragment stage but never written by the vertex stage"

/-- A query may fail, gives warnings in either case, and remembers outcomes in the program. -/
abbrev Query := ExceptT Error (StateT (List Warning) (StateM Program))

namespace Query

/-- Run a query on a program. -/
def ask {α : Type} (q : Query α) (p : Program) : Except Error α × List Warning × Program :=
  let ((outcome, warnings), p) := (q.run.run []).run p
  (outcome, warnings, p)

def ofExcept {α : Type} : Except Error α → Query α
  | .ok a => pure a
  | .error e => throw e

def program : Query Program :=
  getThe Program

def warn (w : Warning) : Query Unit :=
  modifyThe (List Warning) (· ++ [w])

/-- The entry point of a given name. -/
def entry (name : String) : Query EntryPoint := do
  match (← program).entries.get? name with
  | some e => return e
  | none => throw (.unresolvedEntry name)

/-- Keep what is now known about an entry point. -/
def remember (name : String) (e : EntryPoint) : Query Unit :=
  modifyThe Program fun p ↦ { p with entries := p.entries.modify name fun _ ↦ e }

/-- The recorded body of an entry point. -/
def block (name : String) : Query Block := do
  let (outcome, e) := (← entry name).recordOnce
  remember name e
  ofExcept outcome

/-- What an entry point uses. -/
def usage (name : String) : Query Usage := do
  let (outcome, e) := (← entry name).analyzeOnce (← program).toDeclarations
  remember name e
  ofExcept outcome

/-- What the entry point of the other stage uses. -/
def peerUsage (name : String) (stage : Stage) (peer : Option String) : Query (Option Usage) := do
  match peer with
  | none => return none
  | some peer =>
    if (← entry peer).stage = stage then throw (.sameStage name peer stage)
    return some (← usage peer)

/-- Allocate a layout over one side or both, with a warning for each varying that is read in vain.
-/
def allocate (vertex fragment : Option Usage) : Query Layout := do
  match vertex, fragment with
  | some v, some f => (Usage.unwritten v f).forM fun n ↦ warn ⟨n⟩
  | _, _ => pure ()
  ofExcept (Layout.allocate (← program).toDeclarations vertex fragment)

/-- Locations and bindings of an entry point; with a peer, both agree on them. -/
def layout (name : String) (peer : Option String) : Query Layout := do
  let own ← usage name
  let stage := (← entry name).stage
  let other ← peerUsage name stage peer
  match stage with
  | .vertex => allocate (some own) other
  | .fragment => allocate other (some own)

def emission (name : String) (peer : Option String) : Query Emission := do
  let own ← usage name
  let layout ← layout name peer
  let stage := (← entry name).stage
  return ⟨(← program).toDeclarations, name, stage, ← block name, own, layout⟩

/-- The GLSL shader of an entry point. -/
def glsl (name : String) (options : Glsl.Options) : Query Glsl.Shader := do
  let e ← emission name none
  ofExcept (Glsl.emit e options)

def glslText (name : String) (options : Glsl.Options) : Query String :=
  return (← glsl name options).text

/-- The WGSL module of an entry point. -/
def wgsl (name : String) (options : Wgsl.Options) : Query Wgsl.Module := do
  let e ← emission name options.peer
  ofExcept (Wgsl.emit e options)

def wgslText (name : String) (options : Wgsl.Options) : Query String :=
  return (← wgsl name options).text

end Query

namespace Program

/-- Names and stages of the entry points, in the order of their declaration. -/
def entryStages (p : Program) : List (String × Stage) :=
  p.entries.entries.map fun (n, e) ↦ (n, e.stage)

/-- How many times the body of an entry point was run. -/
def runs (p : Program) (name : String) : Nat :=
  match p.entries.get? name with
  | some e => e.runs
  | none => 0

end Program

end Shading
