import Shading.Accessor
import Shading.Proofs.Code.Typing

/-!
# Paths to fields

A path leads from a struct value to a field, through nested structs and elements of arrays of
structs.  Checked accesses follow it along the definition, and stop at the first step that finds no
field of its name or a field of another kind.  Unchecked accesses follow it along a layout that was
made of the definition in advance.

Main statement: a checked access succeeds exactly if every step on the way finds what it asks for.
Then it makes the node that the unchecked access makes, and both languages write this node as the
path is spelled.
-/

namespace Shading

/-! ### Paths -/

/-- Any number of steps into nested structs, and the value at the end. -/
inductive FieldPath where
  | value (name : String) (type : Ty)
  | nested (name : String) (rest : FieldPath)
  /-- A step into an element of an array of structs. -/
  | element (name : String) (position : Term) (rest : FieldPath)

namespace FieldPath

/-- The name that the first step asks for. -/
def name : FieldPath → String
  | value n _ => n
  | nested n _ => n
  | element n _ _ => n

/-- The type of the value at the end. -/
def type : FieldPath → Ty
  | value _ t => t
  | nested _ rest => rest.type
  | element _ _ rest => rest.type

/-- The fields and elements of `object` along the path. -/
def node (object : Expr) : FieldPath → Expr
  | value n _ => .field object n
  | nested n rest => rest.node (.field object n)
  | element n i rest => rest.node (.index (.field object n) i.expr)

/-- The path as it is spelled behind the text of `object`, where `write` gives the texts of
positions. -/
def text (write : Expr → Except Error String) (object : String) : FieldPath → Except Error String
  | value n _ => return object ++ "." ++ n
  | nested n rest => rest.text write (object ++ "." ++ n)
  | element n i rest => do rest.text write (object ++ "." ++ n ++ "[" ++ (← write i.expr) ++ "]")

end FieldPath

/-- A checked access. -/
def StructRef.access (r : StructRef) : FieldPath → Except Error Term
  | .value n t => r.field n t
  | .nested n rest => do (← r.nested n).access rest
  | .element n i rest => do (← r.nestedAt n i).access rest

/-- An unchecked access. -/
def Accessor.read? (a : Accessor) : FieldPath → Option Term
  | .value n _ =>
    match a.field? n with
    | some (.value t) => some t
    | _ => none
  | .nested n rest => (a.field? n).bind (read? · rest)
  | .element n i rest => ((a.field? n).bind (at? · i)).bind (read? · rest)

/-! ### What a path finds -/

/-- The first of the fields with a given name. -/
def StructDef.First (s : StructDef) (name : String) (f : Field) : Prop :=
  f.name = name ∧ ∃ before after, s.fields = before ++ f :: after ∧ ∀ g ∈ before, g.name ≠ name

theorem StructDef.field?_eq_some_iff {s : StructDef} {name : String} {f : Field} :
    s.field? name = some f ↔ s.First name f := by
  simp [field?, First, List.find?_eq_some_iff_append]

theorem StructDef.First.unique {s : StructDef} {name : String} {f g : Field}
    (hf : s.First name f) (hg : s.First name g) : f = g :=
  Option.some.inj ((field?_eq_some_iff.mpr hf).symm.trans (field?_eq_some_iff.mpr hg))

theorem StructDef.First.mem {s : StructDef} {name : String} {f : Field} (h : s.First name f) :
    f ∈ s.fields :=
  List.mem_of_find?_eq_some (field?_eq_some_iff.mpr h)

theorem StructDef.field?_eq_none_iff {s : StructDef} {name : String} :
    s.field? name = none ↔ ∀ f ∈ s.fields, f.name ≠ name := by
  simp [field?, List.find?_eq_none]

namespace FieldPath

/-- The first step can be made with a field: it is a struct, an array of structs, or a value of
exactly the type at the end of the path. -/
def Fits : FieldPath → Field → Prop
  | value _ t, .value _ t' => t' = t
  | nested .., .nested _ _ none => True
  | element .., .nested _ _ (some _) => True
  | _, _ => False

/-- The steps that are come to along a path, each as the struct where it is made and the rest of the
path from there. -/
inductive Reaches : StructDef → FieldPath → StructDef → FieldPath → Prop
  | here (s : StructDef) (p : FieldPath) : Reaches s p s p
  | nested {s t d : StructDef} {n m : String} {p q : FieldPath} (h : s.First n (.nested m t none))
      (hrest : Reaches t p d q) : Reaches s (.nested n p) d q
  | element {s t d : StructDef} {n m : String} {l : Nat} {i : Term} {p q : FieldPath}
      (h : s.First n (.nested m t (some l))) (hrest : Reaches t p d q) :
      Reaches s (.element n i p) d q

/-- The error of a step that finds a field of another kind. -/
def mismatch (struct : String) (f : Field) : FieldPath → Error
  | value _ t => .fieldType struct f t
  | nested n _ => .notStruct struct n
  | element n _ _ => .notStructArray struct n

/-- The first step of a path fails. -/
inductive Stops (s : StructDef) (p : FieldPath) : Error → Prop
  | missing (h : ∀ f ∈ s.fields, f.name ≠ p.name) : Stops s p (.noField s.name p.name)
  | unfit {f : Field} (h : s.First p.name f) (hf : ¬ p.Fits f) : Stops s p (p.mismatch s.name f)

theorem Stops.category {s : StructDef} {p : FieldPath} {e : Error} (h : p.Stops s e) :
    (e.category = .missingValue ∧ ∀ f ∈ s.fields, f.name ≠ p.name) ∨
      (e.category = .invalidArgument ∧ ∃ f, s.First p.name f ∧ ¬ p.Fits f) := by
  cases h with
  | missing h => exact .inl ⟨rfl, h⟩
  | unfit h hf =>
      refine .inr ⟨?_, _, h, hf⟩
      cases p <;> rfl

theorem Stops.not_fits {s : StructDef} {p : FieldPath} {e : Error} (h : p.Stops s e) {f : Field}
    (hf : s.First p.name f) : ¬ p.Fits f := by
  cases h with
  | missing h => exact absurd hf.1 (h f hf.mem)
  | unfit h hunfit => exact h.unique hf ▸ hunfit

/-- A step finds what it asks for, or it stops there. -/
theorem fits_or_stops (s : StructDef) (p : FieldPath) :
    (∃ f, s.First p.name f ∧ p.Fits f) ∨ ∃ e, p.Stops s e := by
  cases hfield : s.field? p.name with
  | none => exact .inr ⟨_, .missing (StructDef.field?_eq_none_iff.mp hfield)⟩
  | some f =>
      have hfirst := StructDef.field?_eq_some_iff.mp hfield
      by_cases hf : p.Fits f
      · exact .inl ⟨f, hfirst, hf⟩
      · exact .inr ⟨_, .unfit hfirst hf⟩

theorem value_or_stops (s : StructDef) (n : String) (t : Ty) :
    (∃ m, s.First n (.value m t)) ∨ ∃ e, (value n t).Stops s e := by
  refine (fits_or_stops s _).imp_left ?_
  rintro ⟨⟨m, t'⟩ | ⟨m, d, l⟩, hfirst, hfits⟩
  · cases hfits
    exact ⟨m, hfirst⟩
  · cases hfits

theorem nested_or_stops (s : StructDef) (n : String) (rest : FieldPath) :
    (∃ m d, s.First n (.nested m d none)) ∨ ∃ e, (nested n rest).Stops s e := by
  refine (fits_or_stops s _).imp_left ?_
  rintro ⟨⟨m, t'⟩ | ⟨m, d, - | l⟩, hfirst, hfits⟩
  · cases hfits
  · exact ⟨m, d, hfirst⟩
  · cases hfits

theorem element_or_stops (s : StructDef) (n : String) (i : Term) (rest : FieldPath) :
    (∃ m d l, s.First n (.nested m d (some l))) ∨ ∃ e, (element n i rest).Stops s e := by
  refine (fits_or_stops s _).imp_left ?_
  rintro ⟨⟨m, t'⟩ | ⟨m, d, - | l⟩, hfirst, hfits⟩
  · cases hfits
  · cases hfits
  · exact ⟨m, d, l, hfirst⟩

end FieldPath

/-! ### Checked accesses -/

namespace StructRef

open FieldPath

variable {r : StructRef} {p : FieldPath} {e : Error}

theorem lookup_of_some {name : String} {f : Field} (h : r.struct.field? name = some f) :
    r.lookup name = .ok f := by
  rw [lookup, h]

/-- A step that finds nothing that fits ends the access. -/
theorem access_of_stops (h : p.Stops r.struct e) : r.access p = .error e := by
  cases h with
  | missing h =>
      have hlookup : r.lookup p.name = .error (.noField r.struct.name p.name) := by
        rw [lookup, StructDef.field?_eq_none_iff.mpr h]
      cases p <;> simp only [name] at hlookup <;>
        simp [access, field, nested, nestedAt, hlookup, FieldPath.name]
  | @unfit f h hf =>
      have hlookup := lookup_of_some (StructDef.field?_eq_some_iff.mpr h)
      cases p <;> rcases f with ⟨m, t⟩ | ⟨m, t, - | l⟩ <;>
        simp only [Fits, not_true_eq_false, FieldPath.name] at hf hlookup <;>
        simp [access, field, nested, nestedAt, hlookup, mismatch, hf]

theorem access_nested {n m : String} {t : StructDef}
    (h : r.struct.First n (.nested m t none)) :
    r.access (.nested n p) = StructRef.access ⟨t, .field r.object n⟩ p := by
  rw [access, nested, lookup_of_some (StructDef.field?_eq_some_iff.mpr h)]
  rfl

theorem access_element {n m : String} {t : StructDef} {l : Nat} {i : Term}
    (h : r.struct.First n (.nested m t (some l))) :
    r.access (.element n i p) = StructRef.access ⟨t, .index (.field r.object n) i.expr⟩ p := by
  rw [access, nestedAt, lookup_of_some (StructDef.field?_eq_some_iff.mpr h)]
  rfl

theorem access_value {n m : String} {t : Ty} (h : r.struct.First n (.value m t)) :
    r.access (.value n t) = .ok ⟨t, .field r.object n⟩ := by
  rw [access, field, lookup_of_some (StructDef.field?_eq_some_iff.mpr h)]
  exact if_pos rfl

/-- Every step finds what it asks for, or the access stops at one of them. -/
theorem access_cases (r : StructRef) (p : FieldPath) :
    (r.access p = .ok ⟨p.type, p.node r.object⟩ ∧
      ∀ d q, Reaches r.struct p d q → ∃ f, d.First q.name f ∧ q.Fits f) ∨
    ∃ d q e, Reaches r.struct p d q ∧ q.Stops d e := by
  induction p generalizing r with
  | value n t =>
      rcases value_or_stops r.struct n t with ⟨m, hfirst⟩ | ⟨e, hstops⟩
      · refine .inl ⟨access_value hfirst, ?_⟩
        rintro d q ⟨⟩
        exact ⟨_, hfirst, rfl⟩
      · exact .inr ⟨_, _, e, .here _ _, hstops⟩
  | nested n rest ih =>
      rcases nested_or_stops r.struct n rest with ⟨m, t, hfirst⟩ | ⟨e, hstops⟩
      · rcases ih ⟨t, .field r.object n⟩ with ⟨hok, hall⟩ | ⟨d, q, e, hreach, hstops⟩
        · refine .inl ⟨(access_nested hfirst).trans hok, ?_⟩
          rintro d q (⟨⟩ | ⟨hfirst', hreach⟩)
          · exact ⟨_, hfirst, trivial⟩
          · cases hfirst'.unique hfirst
            exact hall d q hreach
        · exact .inr ⟨d, q, e, .nested hfirst hreach, hstops⟩
      · exact .inr ⟨_, _, e, .here _ _, hstops⟩
  | element n i rest ih =>
      rcases element_or_stops r.struct n i rest with ⟨m, t, l, hfirst⟩ | ⟨e, hstops⟩
      · rcases ih ⟨t, .index (.field r.object n) i.expr⟩ with
          ⟨hok, hall⟩ | ⟨d, q, e, hreach, hstops⟩
        · refine .inl ⟨(access_element hfirst).trans hok, ?_⟩
          rintro d q (⟨⟩ | - | ⟨hfirst', hreach⟩)
          · exact ⟨_, hfirst, trivial⟩
          · cases hfirst'.unique hfirst
            exact hall d q hreach
        · exact .inr ⟨d, q, e, .element hfirst hreach, hstops⟩
      · exact .inr ⟨_, _, e, .here _ _, hstops⟩

/-- A step that is come to and stops decides the outcome. -/
theorem access_of_reaches {s d : StructDef} {q : FieldPath} (h : Reaches s p d q)
    (hstops : q.Stops d e) (object : Expr) : StructRef.access ⟨s, object⟩ p = .error e := by
  induction h generalizing object with
  | here s p => exact access_of_stops hstops
  | nested hfirst _ ih =>
      rw [access_nested hfirst]
      exact ih hstops _
  | element hfirst _ ih =>
      rw [access_element hfirst]
      exact ih hstops _

theorem access_eq_error_iff :
    r.access p = .error e ↔ ∃ d q, Reaches r.struct p d q ∧ q.Stops d e := by
  constructor
  · intro h
    rcases access_cases r p with ⟨hok, -⟩ | ⟨d, q, e', hreach, hstops⟩
    · rw [h] at hok
      cases hok
    · cases h.symm.trans (access_of_reaches hreach hstops r.object)
      exact ⟨d, q, hreach, hstops⟩
  · rintro ⟨d, q, hreach, hstops⟩
    exact access_of_reaches hreach hstops r.object

theorem exists_access_iff : (∃ t, r.access p = .ok t) ↔
    ∀ d q, Reaches r.struct p d q → ∃ f, d.First q.name f ∧ q.Fits f := by
  constructor
  · rintro ⟨t, ht⟩
    rcases access_cases r p with ⟨-, hall⟩ | ⟨d, q, e, hreach, hstops⟩
    · exact hall
    · cases ht.symm.trans (access_of_reaches hreach hstops r.object)
  · intro hall
    rcases access_cases r p with ⟨hok, -⟩ | ⟨d, q, e, hreach, hstops⟩
    · exact ⟨_, hok⟩
    · obtain ⟨f, hfirst, hfits⟩ := hall d q hreach
      exact (hstops.not_fits hfirst hfits).elim

theorem eq_of_access {t : Term} (h : r.access p = .ok t) : t = ⟨p.type, p.node r.object⟩ := by
  rcases access_cases r p with ⟨hok, -⟩ | ⟨d, q, e, hreach, hstops⟩
  · exact Except.ok.inj (h.symm.trans hok)
  · cases h.symm.trans (access_of_reaches hreach hstops r.object)

end StructRef

/-! ### Unchecked accesses -/

namespace Accessor

theorem ofStruct_eq (object : Expr) (s : StructDef) :
    ofStruct object s = .struct (ofFields object s.fields) := by
  obtain ⟨n, fs⟩ := s
  rw [ofStruct, StructDef.fields]

theorem lookup_ofFields (object : Expr) (fields : List Field) (name : String) :
    (ofFields object fields).lookup name =
      (fields.find? (·.name == name)).map (ofField object) := by
  induction fields with
  | nil => rfl
  | cons f fields ih =>
      rw [ofFields, List.lookup_cons, List.find?_cons, ih, BEq.comm]
      cases f.name == name <;> rfl

theorem field?_ofStruct (object : Expr) (s : StructDef) (name : String) :
    (ofStruct object s).field? name = (s.field? name).map (ofField object) := by
  rw [ofStruct_eq, field?, lookup_ofFields, StructDef.field?]

section

variable {object : Expr} {s : StructDef} {p : FieldPath}

theorem field?_of_first {name : String} {f : Field} (h : s.First name f) :
    (ofStruct object s).field? name = some (ofField object f) := by
  rw [field?_ofStruct, StructDef.field?_eq_some_iff.mpr h, Option.map_some]

theorem read?_value {n m : String} {type t : Ty} (h : s.First n (.value m t)) :
    (ofStruct object s).read? (.value n type) = some ⟨t, .field object n⟩ := by
  rw [read?, field?_of_first h, ofField, ← h.1, Field.name]

theorem read?_nested {n m : String} {t : StructDef} (h : s.First n (.nested m t none)) :
    (ofStruct object s).read? (.nested n p) = (ofStruct (.field object n) t).read? p := by
  rw [read?, field?_of_first h, ofField, Option.bind_some, ← h.1, Field.name]

theorem read?_element {n m : String} {t : StructDef} {l : Nat} {i : Term}
    (h : s.First n (.nested m t (some l))) : (ofStruct object s).read? (.element n i p) =
      (ofStruct (.index (.field object n) i.expr) t).read? p := by
  rw [read?, field?_of_first h, ofField, Option.bind_some, at?, Option.bind_some, ← h.1, Field.name]

/-- Only structs have fields. -/
theorem read?_of_field? {a : Accessor} (h : ∀ n, a.field? n = none) (p : FieldPath) :
    a.read? p = none := by
  cases p <;> simp [read?, h]

/-- A step that stops a checked access leads to no value of the type that was asked for. -/
theorem read?_of_stops {e : Error} (h : p.Stops s e) {t : Term}
    (ht : (ofStruct object s).read? p = some t) : t.type ≠ p.type := by
  cases h with
  | missing h =>
      have hfield : (ofStruct object s).field? p.name = none := by
        rw [field?_ofStruct, StructDef.field?_eq_none_iff.mpr h, Option.map_none]
      cases p <;> rw [FieldPath.name] at hfield <;> simp [read?, hfield] at ht
  | @unfit f h hf =>
      have hfield : (ofStruct object s).field? p.name = some (ofField object f) :=
        field?_of_first h
      cases p with
      | value n type =>
          rw [FieldPath.name] at hfield
          rw [read?, hfield] at ht
          rcases f with ⟨m, t'⟩ | ⟨m, t', - | l⟩
          · cases ht
            exact hf
          · simp [ofField, ofStruct_eq] at ht
          · simp [ofField] at ht
      | nested n rest =>
          rw [FieldPath.name] at hfield
          rw [read?, hfield, Option.bind_some] at ht
          rcases f with ⟨m, t'⟩ | ⟨m, t', - | l⟩
          · rw [ofField, read?_of_field? fun _ ↦ rfl] at ht
            cases ht
          · exact (hf trivial).elim
          · rw [ofField, read?_of_field? fun _ ↦ rfl] at ht
            cases ht
      | element n i rest =>
          rw [FieldPath.name] at hfield
          rw [read?, hfield, Option.bind_some] at ht
          rcases f with ⟨m, t'⟩ | ⟨m, t', - | l⟩
          · cases ht
          · rw [ofField, ofStruct_eq] at ht
            cases ht
          · exact (hf trivial).elim

/-- Where a checked access succeeds, an unchecked one leads to the same value, and where an
unchecked one leads to a value, a checked access for its type succeeds. -/
theorem read?_iff {t : Term} : (ofStruct object s).read? p = some t ∧ t.type = p.type ↔
    StructRef.access ⟨s, object⟩ p = .ok t := by
  have hstopped : ∀ {s : StructDef} {object : Expr} {p : FieldPath} {e : Error}, p.Stops s e →
      ((ofStruct object s).read? p = some t ∧ t.type = p.type ↔
        StructRef.access ⟨s, object⟩ p = .ok t) := by
    intro s object p e hstops
    rw [StructRef.access_of_stops hstops]
    constructor
    · rintro ⟨ht, htype⟩
      exact (read?_of_stops hstops ht htype).elim
    · intro h
      cases h
  induction p generalizing object s with
  | value n type =>
      rcases FieldPath.value_or_stops s n type with ⟨m, hfirst⟩ | ⟨e, hstops⟩
      · rw [read?_value hfirst, StructRef.access_value hfirst]
        constructor
        · rintro ⟨ht, -⟩
          exact congrArg _ (Option.some.inj ht)
        · intro ht
          cases ht
          exact ⟨rfl, rfl⟩
      · exact hstopped hstops
  | nested n rest ih =>
      rcases FieldPath.nested_or_stops s n rest with ⟨m, d, hfirst⟩ | ⟨e, hstops⟩
      · rw [read?_nested hfirst, StructRef.access_nested hfirst]
        exact ih
      · exact hstopped hstops
  | element n i rest ih =>
      rcases FieldPath.element_or_stops s n i rest with ⟨m, d, l, hfirst⟩ | ⟨e, hstops⟩
      · rw [read?_element hfirst, StructRef.access_element hfirst]
        exact ih
      · exact hstopped hstops

end

end Accessor

/-! ### Texts -/

namespace Code.Expr

theorem text_word (s : String) : (word s).text = s := by
  simp [text, tokens, Token.text]

/-- What is accessed stands without parentheses if it is a name, a call or an access itself. -/
theorem text_member {a : Expr} (h : a.grade = .atomic) (name : String) :
    (member a name).text = a.text ++ "." ++ name := by
  simp [text, tokens, wrap, h, Token.text, String.append_assoc]

theorem text_index {a : Expr} (h : a.grade = .atomic) (i : Expr) :
    (index a i).text = a.text ++ "[" ++ i.text ++ "]" := by
  simp [text, tokens, wrap, h, Token.text, String.append_assoc]

end Code.Expr

/-- The text of an expression, where `lower` gives its code. -/
def textOf (lower : Expr → Except Error Code.Expr) (e : Expr) : Except Error String :=
  return (← lower e).text

namespace FieldPath

theorem root?_node (p : FieldPath) (object : Expr) : (p.node object).root? = object.root? := by
  induction p generalizing object with
  | value n t => rfl
  | nested n rest ih => exact ih _
  | element n i rest ih => exact ih _

section

variable {lower : Expr → Except Error Code.Expr} (hlower : Code.WritesAccesses lower)
include hlower

/-- An object that a language cannot write has no fields that it can. -/
theorem textOf_node_error (p : FieldPath) {object : Expr} {e : Error}
    (hobject : lower object = .error e) : textOf lower (p.node object) = .error e := by
  have hfield : ∀ {object : Expr}, lower object = .error e → ∀ n,
      lower (.field object n) = .error e := by
    intro object hobject n
    rw [hlower.field, hobject]
    rfl
  induction p generalizing object with
  | value n t =>
      rw [node, textOf, hfield hobject]
      rfl
  | nested n rest ih => exact ih (hfield hobject n)
  | element n i rest ih =>
      apply ih
      rw [hlower.index, hfield hobject]
      rfl

/-- The text of a path is spelled from step to step, and no base stands in parentheses. -/
theorem textOf_node (p : FieldPath) {object : Expr} {c : Code.Expr}
    (hobject : lower object = .ok c) (hgrade : c.grade = .atomic) :
    textOf lower (p.node object) = p.text (textOf lower) c.text := by
  have hfield : ∀ {object : Expr} {c : Code.Expr}, lower object = .ok c → ∀ n,
      lower (.field object n) = .ok (.member c n) := by
    intro object c hobject n
    rw [hlower.field, hobject]
    rfl
  induction p generalizing object c with
  | value n t =>
      rw [node, textOf, hfield hobject, text, ← Code.Expr.text_member hgrade]
      rfl
  | nested n rest ih =>
      rw [node, text, ← Code.Expr.text_member hgrade]
      exact ih (hfield hobject n) rfl
  | element n i rest ih =>
      rw [node, text, ← Code.Expr.text_member hgrade]
      cases hi : lower i.expr with
      | error e =>
          have hindex : lower (.index (.field object n) i.expr) = .error e := by
            rw [hlower.index, hfield hobject, hi]
            rfl
          rw [textOf_node_error hlower rest hindex, textOf, hi]
          rfl
      | ok ci =>
          have hindex : lower (.index (.field object n) i.expr) =
              .ok (.index (.member c n) ci) := by
            rw [hlower.index, hfield hobject, hi]
            rfl
          rw [ih hindex rfl, textOf, hi, Code.Expr.text_index rfl]
          rfl

end

end FieldPath

/-! ### Accesses to struct uniforms -/

/-- A checked access to a struct uniform succeeds exactly if every step that is come to finds a
field that fits, and otherwise the first step that does not decides the error.  On success it leads
where an unchecked access leads, to a part of the struct uniform that both languages write without
parentheses. -/
theorem access_along_path (name : String) (s : StructDef) (p : FieldPath) :
    ((∃ t, (StructRef.ofUniform name s).access p = .ok t) ↔
      ∀ d q, p.Reaches s d q → ∃ f, d.First q.name f ∧ q.Fits f) ∧
    (∀ e, (StructRef.ofUniform name s).access p = .error e ↔
      ∃ d q, p.Reaches s d q ∧ q.Stops d e) ∧
    (∀ d q e, FieldPath.Stops d q e →
      (e.category = .missingValue ∧ ∀ f ∈ d.fields, f.name ≠ q.name) ∨
        (e.category = .invalidArgument ∧ ∃ f, d.First q.name f ∧ ¬ q.Fits f)) ∧
    (∀ t, (StructRef.ofUniform name s).access p = .ok t ↔
      (Accessor.ofUniform name s).read? p = some t ∧ t.type = p.type) ∧
    ∀ t, (StructRef.ofUniform name s).access p = .ok t →
      t = ⟨p.type, p.node (.var (.uniformStruct name))⟩ ∧
      t.expr.root? = some (.uniformStruct name) ∧
      (∀ c, textOf (Glsl.lower c) t.expr = p.text (textOf (Glsl.lower c)) name) ∧
      ∀ place, textOf (Wgsl.lower place) t.expr = p.text (textOf (Wgsl.lower place)) name := by
  refine ⟨StructRef.exists_access_iff, fun e ↦ StructRef.access_eq_error_iff,
    fun d q e ↦ FieldPath.Stops.category, fun t ↦ Accessor.read?_iff.symm, ?_⟩
  intro t ht
  obtain rfl := StructRef.eq_of_access ht
  have htext : ∀ {lower : Expr → Except Error Code.Expr}, Code.WritesAccesses lower →
      textOf lower (p.node (.var (.uniformStruct name))) = p.text (textOf lower) name := by
    intro lower hlower
    rw [p.textOf_node hlower (hlower.uniform name) rfl, Code.Expr.text_word]
  exact ⟨rfl, p.root?_node _, fun c ↦ htext (Code.writesAccesses_glsl c),
    fun place ↦ htext (Code.writesAccesses_wgsl place)⟩

/-- A struct whose second field of a name is out of reach, and a struct that nests it. -/
def street : StructDef :=
  let lamp := StructDef.mk "Lamp"
    [.value "power" .float, .value "power" (.ofPrim (.vector .float .four))]
  .mk "Street" [.nested "sun" lamp none, .nested "lamps" lamp (some 4)]

/-- The power of a lamp that is picked, as a value of a given type. -/
def lampPower (type : Ty) : FieldPath :=
  .element "lamps" (.arithmetic .add (.ofHandle .int (.uniform "first"))
    (.ofHandle .int (.uniform "pick"))) (.value "power" type)

theorem access_along_path_street :
    (∃ t, (StructRef.ofUniform "street" street).access (lampPower .float) = .ok t ∧
      (Accessor.ofUniform "street" street).read? (lampPower .float) = some t ∧
      t.expr.root? = some (.uniformStruct "street") ∧
      textOf (Wgsl.lower .standalone) t.expr = .ok "street.lamps[first + pick].power") ∧
    ∃ e, (StructRef.ofUniform "street" street).access
        (lampPower (.ofPrim (.vector .float .four))) = .error e ∧
      ∃ d q f, FieldPath.Reaches street (lampPower (.ofPrim (.vector .float .four))) d q ∧
        d.First q.name f ∧ ¬ q.Fits f := by
  have htext : (FieldPath.text (textOf (Wgsl.lower .standalone)) "street"
      (lampPower .float)).toOption = some "street.lamps[first + pick].power" := by decide +kernel
  constructor
  · obtain ⟨-, -, -, hread, hshape⟩ := access_along_path "street" street (lampPower .float)
    have hok : (StructRef.ofUniform "street" street).access (lampPower .float) = .ok _ := rfl
    obtain ⟨-, hroot, -, hwgsl⟩ := hshape _ hok
    exact ⟨_, hok, ((hread _).mp hok).1, hroot,
      (hwgsl .standalone).trans (eq_ok_of_toOption htext)⟩
  · obtain ⟨-, herror, hcategory, -, -⟩ :=
      access_along_path "street" street (lampPower (.ofPrim (.vector .float .four)))
    have hwrong : (StructRef.ofUniform "street" street).access
        (lampPower (.ofPrim (.vector .float .four))) = .error _ := rfl
    obtain ⟨d, q, hreach, hstops⟩ := (herror _).mp hwrong
    rcases hcategory d q _ hstops with ⟨hmissing, -⟩ | ⟨-, f, hfirst, hfits⟩
    · cases hmissing
    · exact ⟨_, hwrong, d, q, f, hreach, hfirst, hfits⟩

end Shading
