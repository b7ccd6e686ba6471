import Mathlib.Data.List.Perm.Subperm
import Mathlib.Logic.Relation
import Shading.Proofs.Collection
import Shading.Proofs.Usage.Events

/-!
# Walks without bounds

A walk bounds how deep it follows helpers and constants.  Here is the walk without these bounds, as
a relation between what is walked and the outcome, and the proof that the bounds are never met
unless a constant refers to itself.
-/

namespace Shading.Usage

/-! ### Notes -/

def addRead (u : Usage) : Handle → Usage
  | .builtin b => { u with builtins := u.builtins.insert b }
  | .constant i => { u with constants := u.constants.insert i }
  | .argument _ => u
  | .localVar .. => u
  | .uniform n => u.addUniform n
  | .uniformStruct n => u.addUniformStruct n
  | .vertexAttribute n => { u with attributes := u.attributes.insert n }
  | .varying n => { u with varyings := u.varyings.insert n }
  | .output n => { u with outputs := u.outputs.insert n }
  | .sampler n => u.addSampler n

/-- Note an event, be it allowed or not. -/
def note (u : Usage) : Event → Usage
  | .read h => u.addRead h
  | .call n => { u with helpers := u.helpers.insert n }
  | .write h => u.addWrite h
  | .leave withValue => u.addReturn withValue
  | .discard => { u with discards := true }

/-- Whether an event is a reference that was followed before. -/
def knows (u : Usage) : Event → Bool
  | .read (.constant i) => i ∈ u.constants
  | .call n => n ∈ u.helpers
  | _ => false

namespace Event

/-- The events that a reference to a helper or a constant stands for. -/
def code? (d : Declarations) : Event → Option (List Event)
  | .read (.constant i) => d.constants[i]?.map fun value ↦ ofExpr value.expr
  | .call n => (d.helpers.get? n).map ofHelper
  | _ => none

/-- Why an event is refused while some helpers are being followed. -/
def fault? (d : Declarations) (stage : Stage) (active : List String) : Event → Option Error
  | .read (.builtin b) => if b.stage = stage then none else some (.foreignBuiltin b stage)
  | .read (.constant i) => if i < d.constants.size then none else some (.undeclaredConstant i)
  | .read (.argument _) => none
  | .read (.localVar ..) => none
  | .read (.uniform n) =>
    if d.uniforms.contains n then none else some (.undeclared .uniform n)
  | .read (.uniformStruct n) =>
    if d.uniformStructs.contains n then none else some (.undeclared .structUniform n)
  | .read (.sampler n) =>
    if d.samplers.contains n then none else some (.undeclared .sampler n)
  | .read (.vertexAttribute n) =>
    if !d.attributes.contains n then some (.undeclared .vertexAttribute n)
    else if stage ≠ .vertex then some (.foreignResource .vertexAttribute n stage)
    else none
  | .read (.varying n) => if d.varyings.contains n then none else some (.undeclared .varying n)
  | .read (.output n) =>
    if !d.outputs.contains n then some (.undeclared .output n)
    else if stage ≠ .fragment then some (.foreignResource .output n stage)
    else none
  | .call n =>
    if n ∈ active then some (.recursiveHelper n)
    else if d.helpers.contains n then none
    else some (.undeclared .function n)
  | .write _ => none
  | .leave _ => none
  | .discard => if stage = .fragment then none else some (.foreignDiscard stage)

/-- The helpers being followed inside a reference. -/
def enter (active : List String) : Event → List String
  | .call n => n :: active
  | _ => active

/-- Neither a helper nor a constant. -/
def Plain (e : Event) : Prop :=
  (∀ i, e ≠ .read (.constant i)) ∧ ∀ n, e ≠ .call n

theorem plain_or_reference (e : Event) :
    e.Plain ∨ (∃ i, e = .read (.constant i)) ∨ ∃ n, e = .call n := by
  by_cases hconstant : ∃ i, e = .read (.constant i)
  · exact .inr (.inl hconstant)
  by_cases hcall : ∃ n, e = .call n
  · exact .inr (.inr hcall)
  · exact .inl ⟨not_exists.mp hconstant, not_exists.mp hcall⟩

theorem Plain.code? {d : Declarations} {e : Event} (he : e.Plain) : e.code? d = none := by
  unfold Event.code?
  split
  · exact (he.1 _ rfl).elim
  · exact (he.2 _ rfl).elim
  · rfl

theorem fault?_call {d : Declarations} {stage : Stage} {active : List String} {n : String} :
    fault? d stage active (.call n) = none ↔ n ∉ active ∧ d.helpers.contains n = true := by
  rw [fault?]
  split
  · next hactive => simp [hactive]
  · next hactive => split <;> simp_all

end Event

/-- The walk over some events while some helpers are being followed.  Only helpers and constants
that are not known yet are followed, and nothing bounds how deep. -/
inductive Walks (d : Declarations) (stage : Stage) :
    List String → List Event → Usage → Except Error Usage → Prop
  | nil {active : List String} {u : Usage} : Walks d stage active [] u (.ok u)
  | seen {active : List String} {e : Event} {es : List Event} {u : Usage} {r : Except Error Usage}
      (hknown : u.knows e = true) (hrest : Walks d stage active es u r) :
      Walks d stage active (e :: es) u r
  | refused {active : List String} {e : Event} {es : List Event} {u : Usage} {err : Error}
      (hnew : u.knows e = false) (hfault : e.fault? d stage active = some err) :
      Walks d stage active (e :: es) u (.error err)
  | plain {active : List String} {e : Event} {es : List Event} {u : Usage} {r : Except Error Usage}
      (hnew : u.knows e = false) (hfault : e.fault? d stage active = none)
      (hcode : e.code? d = none) (hrest : Walks d stage active es (u.note e) r) :
      Walks d stage active (e :: es) u r
  | followed {active : List String} {e : Event} {es body : List Event} {u v : Usage}
      {r : Except Error Usage} (hnew : u.knows e = false)
      (hfault : e.fault? d stage active = none) (hcode : e.code? d = some body)
      (hbody : Walks d stage (e.enter active) body u (.ok v))
      (hrest : Walks d stage active es (v.note e) r) : Walks d stage active (e :: es) u r
  | failed {active : List String} {e : Event} {es body : List Event} {u : Usage} {err : Error}
      (hnew : u.knows e = false) (hfault : e.fault? d stage active = none)
      (hcode : e.code? d = some body)
      (hbody : Walks d stage (e.enter active) body u (.error err)) :
      Walks d stage active (e :: es) u (.error err)

variable {d : Declarations} {stage : Stage}

/-- A walk has one outcome. -/
theorem Walks.unique {active : List String} {es : List Event} {u : Usage}
    {r r' : Except Error Usage} (h : Walks d stage active es u r)
    (h' : Walks d stage active es u r') : r = r' := by
  induction h generalizing r' with
  | nil =>
      cases h'
      rfl
  | seen hknown _ ih =>
      cases h' with
      | seen _ hrest => exact ih hrest
      | _ => simp_all
  | refused hnew hfault => cases h' <;> simp_all
  | plain hnew hfault hcode _ ih =>
      cases h' with
      | plain _ _ _ hrest => exact ih hrest
      | _ => simp_all
  | followed hnew hfault hcode _ _ ihbody ihrest =>
      cases h' with
      | followed _ _ hcode' hbody hrest =>
          cases hcode.symm.trans hcode'
          cases ihbody hbody
          exact ihrest hrest
      | failed _ _ hcode' hbody =>
          cases hcode.symm.trans hcode'
          cases ihbody hbody
      | _ => simp_all
  | failed hnew hfault hcode _ ihbody =>
      cases h' with
      | followed _ _ hcode' hbody =>
          cases hcode.symm.trans hcode'
          cases ihbody hbody
      | failed _ _ hcode' hbody =>
          cases hcode.symm.trans hcode'
          cases ihbody hbody
          rfl
      | _ => simp_all

/-! ### Reachable code -/

/-- An event is a reference whose code has another event in it. -/
def Leads (d : Declarations) (e e' : Event) : Prop :=
  ∃ body, e.code? d = some body ∧ e' ∈ body

/-- An event stands in some code or in the code that it leads to. -/
def Reaches (d : Declarations) (es : List Event) (e : Event) : Prop :=
  ∃ first ∈ es, Relation.ReflTransGen (Leads d) first e

/-- The value of a constant has another constant in it. -/
def RefersTo (d : Declarations) (i j : Nat) : Prop :=
  ∃ value, d.constants[i]? = some value ∧ .read (.constant j) ∈ Event.ofExpr value.expr

theorem RefersTo.leads {i j : Nat} (h : RefersTo d i j) :
    Leads d (.read (.constant i)) (.read (.constant j)) := by
  obtain ⟨value, hvalue, hmem⟩ := h
  exact ⟨_, by rw [Event.code?, hvalue, Option.map_some], hmem⟩

theorem reaches_of_mem {es : List Event} {e : Event} (h : e ∈ es) : Reaches d es e :=
  ⟨e, h, .refl⟩

theorem Reaches.mono {es es' : List Event} {e : Event} (hsub : ∀ e ∈ es, e ∈ es')
    (h : Reaches d es e) : Reaches d es' e := by
  obtain ⟨first, hfirst, hleads⟩ := h
  exact ⟨first, hsub first hfirst, hleads⟩

/-- The code of a reference reaches no more than the reference. -/
theorem Reaches.of_code {es body : List Event} {e e' : Event} (he : e ∈ es)
    (hcode : e.code? d = some body) (h : Reaches d body e') : Reaches d es e' := by
  obtain ⟨first, hfirst, hpath⟩ := h
  exact ⟨e, he, .head ⟨body, hcode, hfirst⟩ hpath⟩

/-! ### Bounds -/

/-- Helpers being followed, and how many more the bound allows. -/
structure Depth (d : Declarations) (calls : Nat) (active : List String) : Prop where
  nodup : active.Nodup
  declared : ∀ n ∈ active, d.helpers.contains n = true
  length : calls + active.length = d.helpers.size + 1

theorem depth_nil : Depth d (d.helpers.size + 1) [] where
  nodup := .nil
  declared := by simp
  length := rfl

theorem Depth.pos {calls : Nat} {active : List String} (h : Depth d calls active) : 0 < calls := by
  have hsub : active ⊆ d.helpers.keys := fun n hn ↦ Table.contains_iff.mp (h.declared n hn)
  have hle := (List.subperm_of_subset h.nodup hsub).length_le
  have hkeys : d.helpers.keys.length = d.helpers.size := List.length_map _
  have hlength := h.length
  omega

theorem Depth.enter {calls : Nat} {active : List String} {n : String}
    (h : Depth d (calls + 1) active) (hnew : n ∉ active) (hn : d.helpers.contains n = true) :
    Depth d calls (n :: active) where
  nodup := List.nodup_cons.mpr ⟨hnew, h.nodup⟩
  declared := List.forall_mem_cons.mpr ⟨hn, h.declared⟩
  length := by
    have hlength := h.length
    rw [List.length_cons]
    omega

/-- Constants being followed since the last helper, and how many more the bound allows. -/
structure Room (d : Declarations) (chain : Nat) (trail : List Nat) (es : List Event) : Prop where
  nodup : trail.Nodup
  declared : ∀ i ∈ trail, i < d.constants.size
  length : chain + trail.length = d.constants.size + 1
  leads : ∀ i ∈ trail, ∀ j, .read (.constant j) ∈ es → Relation.TransGen (RefersTo d) i j
  acyclic : ∀ i, Reaches d es (.read (.constant i)) → ¬ Relation.TransGen (RefersTo d) i i

theorem room_nil {es : List Event}
    (hacyclic : ∀ i, Reaches d es (.read (.constant i)) → ¬ Relation.TransGen (RefersTo d) i i) :
    Room d (d.constants.size + 1) [] es where
  nodup := .nil
  declared := by simp
  length := rfl
  leads := by simp
  acyclic := hacyclic

theorem Room.pos {chain : Nat} {trail : List Nat} {es : List Event} (h : Room d chain trail es) :
    0 < chain := by
  have hsub : trail ⊆ List.range d.constants.size := fun i hi ↦
    List.mem_range.mpr (h.declared i hi)
  have hle := (List.subperm_of_subset h.nodup hsub).length_le
  have hlength := h.length
  rw [List.length_range] at hle
  omega

theorem Room.tail {chain : Nat} {trail : List Nat} {e : Event} {es : List Event}
    (h : Room d chain trail (e :: es)) : Room d chain trail es where
  nodup := h.nodup
  declared := h.declared
  length := h.length
  leads i hi j hj := h.leads i hi j (List.mem_cons_of_mem e hj)
  acyclic i hi := h.acyclic i (hi.mono fun _ ↦ List.mem_cons_of_mem e)

/-- Inside of a constant there is room for one constant less. -/
theorem Room.constant {chain : Nat} {trail : List Nat} {es body : List Event} {i : Nat}
    (h : Room d (chain + 1) trail es) (hi : .read (.constant i) ∈ es)
    (hbody : Event.code? d (.read (.constant i)) = some body) : Room d chain (i :: trail) body := by
  have hself := h.acyclic i (reaches_of_mem hi)
  obtain ⟨value, hvalue, rfl⟩ := Option.map_eq_some_iff.mp hbody
  have hrefers : ∀ j, .read (.constant j) ∈ Event.ofExpr value.expr → RefersTo d i j :=
    fun j hj ↦ ⟨value, hvalue, hj⟩
  constructor
  case nodup =>
      refine List.nodup_cons.mpr ⟨fun hmem ↦ ?_, h.nodup⟩
      exact hself (h.leads i hmem i hi)
  case declared =>
      exact List.forall_mem_cons.mpr ⟨(Array.getElem?_eq_some_iff.mp hvalue).1, h.declared⟩
  case length =>
      have hlength := h.length
      rw [List.length_cons]
      omega
  case leads =>
      intro k hk j hj
      rcases List.mem_cons.mp hk with rfl | hk
      · exact .single (hrefers j hj)
      · exact (h.leads k hk i hi).tail (hrefers j hj)
  case acyclic => exact fun j hj ↦ h.acyclic j (hj.of_code hi hbody)

/-- Inside of a helper there is room for all constants. -/
theorem Room.helper {chain : Nat} {trail : List Nat} {es body : List Event} {e : Event}
    (h : Room d chain trail es) (he : e ∈ es) (hbody : e.code? d = some body) :
    Room d (d.constants.size + 1) [] body :=
  room_nil fun i hi ↦ h.acyclic i (hi.of_code he hbody)

/-! ### Bounded walks -/

/-- The step for an event under the bounds of a walk. -/
def Walk.bounded (d : Declarations) (stage : Stage) (calls chain : Nat) (active : List String) :
    Event → Walk Unit :=
  Walk.event stage (Walk.handle d stage (Walk.constant d stage
    (Walk.helper d stage calls active) chain)) (Walk.helper d stage calls active)

def stepAt (d : Declarations) (stage : Stage) (calls chain : Nat) (active : List String)
    (e : Event) (u : Usage) : Except Error Usage :=
  ((Walk.bounded d stage calls chain active e).run u).map Prod.snd

def runAt (d : Declarations) (stage : Stage) (calls chain : Nat) (active : List String)
    (es : List Event) (u : Usage) : Except Error Usage :=
  ((Walk.events (Walk.bounded d stage calls chain active) es).run u).map Prod.snd

theorem runAt_cons (calls chain : Nat) (active : List String) (e : Event) (es : List Event)
    (u : Usage) : runAt d stage calls chain active (e :: es) u =
      stepAt d stage calls chain active e u >>= runAt d stage calls chain active es := by
  rw [runAt, Walk.events, StateT.run_bind, stepAt]
  cases (Walk.bounded d stage calls chain active e).run u with
  | error err => rfl
  | ok pair => rfl

theorem of_eq_runAt (body : Block) : Usage.of d stage body =
    runAt d stage (d.helpers.size + 1) (d.constants.size + 1) [] (Event.ofBlock true body)
      .empty := by
  have hevents : Walk.statements stage false
      (Walk.deepExpr d stage (Walk.helper d stage (d.helpers.size + 1) [])) body =
        Walk.events (Walk.bounded d stage (d.helpers.size + 1) (d.constants.size + 1) [])
          (Event.ofBlock true body) :=
    Walk.statements_eq_events stage true body
  rw [runAt, ← hevents]
  unfold Usage.of
  dsimp only
  cases (Walk.statements stage false _ body).run Usage.empty with
  | error err => rfl
  | ok pair => rfl

/-- What one event comes to, when the code of a reference comes to what `inner` says. -/
def visit (d : Declarations) (stage : Stage) (active : List String)
    (inner : List Event → Usage → Except Error Usage) (e : Event) (u : Usage) :
    Except Error Usage :=
  if u.knows e then .ok u
  else match e.fault? d stage active with
    | some err => .error err
    | none =>
      match e.code? d with
      | none => .ok (u.note e)
      | some body => (inner body u).map (·.note e)

theorem stepAt_plain {calls chain : Nat} {active : List String} {e : Event} {u : Usage}
    (inner : List Event → Usage → Except Error Usage) (he : e.Plain) :
    stepAt d stage calls chain active e u = visit d stage active inner e u := by
  cases e with
  | read h =>
      cases h with
      | constant i => exact (he.1 i rfl).elim
      | argument i => rfl
      | localVar i j => rfl
      | vertexAttribute n =>
          simp only [stepAt, Walk.bounded, Walk.event, Walk.handle, visit, Event.fault?, knows]
          split
          · rfl
          · split <;> rfl
      | output n =>
          simp only [stepAt, Walk.bounded, Walk.event, Walk.handle, visit, Event.fault?, knows]
          split
          · rfl
          · split <;> rfl
      | _ =>
          simp only [stepAt, Walk.bounded, Walk.event, Walk.handle, visit, Event.fault?, knows]
          split <;> rfl
  | call n => exact (he.2 n rfl).elim
  | write h => rfl
  | leave withValue => rfl
  | discard =>
      simp only [stepAt, Walk.bounded, Walk.event, visit, Event.fault?, knows]
      split <;> rfl

/-- Following a reference notes it in the end. -/
theorem map_run_note (w : Walk Unit) (u : Usage) (e : Event) :
    ((w >>= fun _ ↦ modify (·.note e)).run u).map Prod.snd =
      ((w.run u).map Prod.snd).map (·.note e) := by
  rw [StateT.run_bind]
  cases w.run u with
  | error err => rfl
  | ok pair => rfl

theorem stepAt_constant {calls chain : Nat} {active : List String} {i : Nat} {u : Usage} :
    stepAt d stage calls (chain + 1) active (.read (.constant i)) u =
      visit d stage active (runAt d stage calls chain active) (.read (.constant i)) u := by
  simp only [stepAt, Walk.bounded, Walk.event, Walk.handle, visit, Event.fault?, knows,
    Event.code?]
  rw [Walk.constant, StateT.run_bind, StateT.run_get]
  dsimp only [pure_eq_ok, ok_bind]
  by_cases hknown : i ∈ u.constants
  · simp only [hknown, if_true, decide_true]
    rfl
  · simp only [hknown, if_false, decide_false, Bool.false_eq_true]
    cases hvalue : d.constants[i]? with
    | none =>
        rw [if_neg (by simpa using hvalue)]
        rfl
    | some value =>
        rw [if_pos (Array.getElem?_eq_some_iff.mp hvalue).1, Option.map_some]
        dsimp only
        rw [Walk.expr_eq_events stage value.expr]
        exact map_run_note _ _ (.read (.constant i))

theorem stepAt_call {calls chain : Nat} {active : List String} {n : String} {u : Usage} :
    stepAt d stage (calls + 1) chain active (.call n) u =
      visit d stage active (runAt d stage calls (d.constants.size + 1) (n :: active))
        (.call n) u := by
  simp only [stepAt, Walk.bounded, Walk.event, visit, Event.fault?, knows, Event.code?]
  rw [Walk.helper, StateT.run_bind, StateT.run_get]
  dsimp only [pure_eq_ok, ok_bind]
  by_cases hknown : n ∈ u.helpers
  · simp only [hknown, if_true, decide_true]
    rfl
  simp only [hknown, if_false, decide_false, Bool.false_eq_true]
  by_cases hactive : n ∈ active
  · simp only [hactive, if_true]
    rfl
  simp only [hactive, if_false]
  cases hvalue : d.helpers.get? n with
  | none =>
      have hmissing : ¬ d.helpers.contains n = true := by
        intro hcontains
        obtain ⟨a, ha⟩ := Table.exists_get? hcontains
        cases ha.symm.trans hvalue
      rw [if_neg hmissing]
      rfl
  | some h =>
      rw [if_pos (Table.contains_of_get? hvalue), Option.map_some]
      have hwalk := Walk.helper_eq_events stage
        (Walk.handle d stage (Walk.constant d stage
          (Walk.helper d stage calls (n :: active)) (d.constants.size + 1)))
        (Walk.helper d stage calls (n :: active)) h (modify (·.note (.call n)))
      exact (congrArg (fun w ↦ (w.run u).map Prod.snd) hwalk).trans (map_run_note _ _ (.call n))

/-! ### Bounds that are never met -/

/-- A walk goes on after an event if it may go on inside of it. -/
theorem walks_visit {active : List String} {e : Event} {es : List Event} {u : Usage}
    {inner : List Event → Usage → Except Error Usage} {rest : Usage → Except Error Usage}
    (hinner : ∀ body, e.fault? d stage active = none → e.code? d = some body →
      ((∃ v, visit d stage active inner e u = .ok v) → ∃ v, inner body u = .ok v) →
      Walks d stage (e.enter active) body u (inner body u))
    (hrest : ∀ v, visit d stage active inner e u = .ok v → Walks d stage active es v (rest v)) :
    Walks d stage active (e :: es) u (visit d stage active inner e u >>= rest) := by
  unfold visit at hinner hrest ⊢
  cases hknown : u.knows e with
  | true =>
      simp only [hknown, if_true] at hrest ⊢
      exact .seen hknown (hrest u rfl)
  | false =>
      simp only [hknown, Bool.false_eq_true, if_false] at hinner hrest ⊢
      cases hfault : e.fault? d stage active with
      | some err => exact .refused hknown hfault
      | none =>
          simp only [hfault] at hinner hrest ⊢
          cases hcode : e.code? d with
          | none =>
              simp only [hcode] at hrest ⊢
              exact .plain hknown hfault hcode (hrest _ rfl)
          | some body =>
              simp only [hcode] at hinner hrest ⊢
              cases hr : inner body u with
              | error err =>
                  have hbody := hinner body trivial rfl (by simp [hr, Except.map])
                  exact .failed hknown hfault hcode (hr ▸ hbody)
              | ok v =>
                  have hbody := hinner body trivial rfl fun _ ↦ ⟨v, hr⟩
                  rw [hr] at hrest
                  exact .followed hknown hfault hcode (hr ▸ hbody) (hrest _ rfl)

/-- The outcome of a bounded walk is that of the unbounded one, if there is room for all constants
or the walk succeeds anyway. -/
theorem walks_runAt {calls chain : Nat} {active : List String} {es : List Event} {u : Usage}
    (hdepth : Depth d calls active)
    (hroom : (∃ trail, Room d chain trail es) ∨
      ∃ v, runAt d stage calls chain active es u = .ok v) :
    Walks d stage active es u (runAt d stage calls chain active es u) := by
  -- Helpers are followed with fewer calls left, constants with as many and a shorter chain.
  induction calls generalizing chain active es u with
  | zero => exact absurd hdepth.pos (Nat.lt_irrefl 0)
  | succ calls ihcalls =>
      induction chain using Nat.strongRecOn generalizing es u with
      | _ chain ihchain =>
          induction es generalizing u with
          | nil => exact .nil
          | cons e es ihes =>
              rw [runAt_cons] at hroom ⊢
              have hrest : ∀ v, stepAt d stage (calls + 1) chain active e u = .ok v →
                  Walks d stage active es v (runAt d stage (calls + 1) chain active es v) := by
                intro v hv
                apply ihes
                rcases hroom with ⟨trail, hroom⟩ | ⟨w, hw⟩
                · exact .inl ⟨trail, hroom.tail⟩
                · rw [hv] at hw
                  exact .inr ⟨w, hw⟩
              have hok : (∃ trail, Room d chain trail (e :: es)) ∨
                  ∃ v, stepAt d stage (calls + 1) chain active e u = .ok v := by
                refine hroom.imp id ?_
                rintro ⟨w, hw⟩
                obtain ⟨v, hv, -⟩ := bind_eq_ok.mp hw
                exact ⟨v, hv⟩
              rcases e.plain_or_reference with hplain | ⟨i, rfl⟩ | ⟨n, rfl⟩
              · rw [stepAt_plain (fun _ ↦ .ok) hplain] at hrest ⊢
                refine walks_visit (fun body _ hcode ↦ ?_) hrest
                rw [hplain.code?] at hcode
                cases hcode
              · cases chain with
                | zero =>
                    rcases hok with ⟨trail, hroom⟩ | ⟨v, hv⟩
                    · exact absurd hroom.pos (Nat.lt_irrefl 0)
                    · cases hv
                | succ chain =>
                    rw [stepAt_constant] at hrest hok ⊢
                    refine walks_visit (fun body _ hcode hinner ↦ ?_) hrest
                    apply ihchain chain (Nat.lt_succ_self chain)
                    rcases hok with ⟨trail, hroom⟩ | hok
                    · exact .inl ⟨_, hroom.constant List.mem_cons_self hcode⟩
                    · exact .inr (hinner hok)
              · rw [stepAt_call] at hrest hok ⊢
                refine walks_visit (fun body hfault hcode hinner ↦ ?_) hrest
                obtain ⟨hnew, hn⟩ := Event.fault?_call.mp hfault
                apply ihcalls (hdepth.enter hnew hn)
                rcases hok with ⟨trail, hroom⟩ | hok
                · exact .inl ⟨_, hroom.helper List.mem_cons_self hcode⟩
                · exact .inr (hinner hok)

theorem walks_of_eq_ok {body : Block} {u : Usage} (h : Usage.of d stage body = .ok u) :
    Walks d stage [] (Event.ofBlock true body) .empty (.ok u) := by
  rw [of_eq_runAt] at h
  have hwalks := @walks_runAt d stage _ _ _ _ _ depth_nil (.inr ⟨u, h⟩)
  rwa [h] at hwalks

/-- An analysis comes to what the walk without bounds comes to. -/
theorem walks_of {body : Block} (hacyclic : ∀ i,
    Reaches d (Event.ofBlock true body) (.read (.constant i)) →
      ¬ Relation.TransGen (RefersTo d) i i) :
    Walks d stage [] (Event.ofBlock true body) .empty (Usage.of d stage body) := by
  rw [of_eq_runAt]
  exact walks_runAt depth_nil (.inl ⟨[], room_nil hacyclic⟩)

end Shading.Usage
