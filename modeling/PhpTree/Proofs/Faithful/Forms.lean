import Mathlib.Data.List.Nodup
import PhpTree.Proofs.Descent

/-! # Forms and attributes from their parts

A form is known by its label, its text and what stands in its slots.  The label says
which constructor was used, so the form can be filled again from a table of its slots,
in whatever order they come and whether or not the empty ones are listed.  Attributes
are known by their flags, their doc comment and their comments. -/
set_option autoImplicit false
namespace PhpTree

namespace Slot

def all : List Slot :=
  [.expr, .exprs, .variableType, .variable, .defaultValue, .parts, .varName, .expression, .class,
    .constantName, .constant, .params, .uses, .returnType, .stmts, .arguments, .function, .method,
    .call, .property, .functionName, .className, .modifiers, .args, .extends, .implements,
    .methodName]

theorem mem_all (slot : Slot) : slot ∈ all := by
  cases slot <;> decide

theorem name_inj {slot other : Slot} (same : slot.name = other.name) : slot = other :=
  List.inj_on_of_nodup_map (f := name) (by decide) slot.mem_all other.mem_all same

end Slot

def Slot.holdsList : Slot → Bool
  | .exprs | .parts | .params | .uses | .stmts | .arguments | .modifiers | .args
  | .implements => true
  | _ => false

theorem AssignOp.mem_all (op : AssignOp) : op ∈ all := by
  cases op <;> decide

theorem AssignOp.name_inj {op other : AssignOp} (same : op.name = other.name) : op = other :=
  List.inj_on_of_nodup_map (f := name) (by decide) op.mem_all other.mem_all same

namespace Field
variable {α : Type}

def childAt (fields : List (Slot × Field α)) (slot : Slot) : Option α :=
  match fields.lookup slot with
  | some (.single child) => child
  | _ => none

def childrenAt (fields : List (Slot × Field α)) (slot : Slot) : List α :=
  match fields.lookup slot with
  | some (.list children) => children
  | _ => []

theorem lookup_cons_of_ne {fields : List (Slot × Field α)} {slot other : Slot} {field : Field α}
    (different : slot ≠ other) : ((other, field) :: fields).lookup slot = fields.lookup slot := by
  have unequal : (slot == other) = false := beq_eq_false_iff_ne.mpr different
  simp only [List.lookup_cons, unequal]

theorem lookup_eq_none {fields : List (Slot × Field α)} {slot : Slot}
    (absent : slot ∉ fields.map Prod.fst) : fields.lookup slot = none := by
  rw [List.lookup_eq_none_iff]
  intro field member
  exact bne_iff_ne.mpr fun same => absent (List.mem_map.mpr ⟨field, member, same.symm⟩)

theorem childAt_filter_isFilled {fields : List (Slot × Field α)}
    (distinct : (fields.map Prod.fst).Nodup) (slot : Slot) :
    childAt (fields.filter fun field => field.2.isFilled) slot = childAt fields slot ∧
      childrenAt (fields.filter fun field => field.2.isFilled) slot = childrenAt fields slot := by
  induction fields with
  | nil => exact ⟨rfl, rfl⟩
  | cons entry fields inductionHypothesis =>
      obtain ⟨other, field⟩ := entry
      obtain ⟨absent, rest⟩ := List.nodup_cons.mp distinct
      have tail := inductionHypothesis rest
      by_cases same : slot = other
      · subst same
        cases filled : field.isFilled with
        | true =>
            rw [List.filter_cons_of_pos (by exact filled)]
            simp [childAt, childrenAt]
        | false =>
            obtain ⟨rfl⟩ : field = .single none := by
              cases field <;> simp_all [isFilled]
            rw [List.filter_cons_of_neg (by simp [isFilled]), tail.1, tail.2]
            simp [childAt, childrenAt, lookup_eq_none absent]
      · have here : childAt ((other, field) :: fields) slot = childAt fields slot ∧
            childrenAt ((other, field) :: fields) slot = childrenAt fields slot := by
          simp only [childAt, childrenAt, lookup_cons_of_ne same, and_self]
        rw [here.1, here.2, ← tail.1, ← tail.2, List.filter_cons]
        split
        · simp only [childAt, childrenAt, lookup_cons_of_ne same, and_self]
        · exact ⟨rfl, rfl⟩

def ofList : Bool → List α → Field α
  | true, children => .list children
  | false, children => .single children.head?

theorem ofList_toList (field : Field α) : ofList field.isList field.toList = field := by
  cases field with
  | single child => cases child <;> rfl
  | list children => rfl

end Field

namespace Form
variable {α β : Type}

theorem isList_of_mem_fields {form : Form α} {field : Slot × Field α}
    (member : field ∈ form.fields) : field.2.isList = field.1.holdsList := by
  cases form <;> simp only [fields, List.mem_cons, List.not_mem_nil, or_false] at member
  all_goals rcases member with rfl | rfl | rfl | rfl | rfl | rfl
  all_goals rfl

theorem isList_of_mem_reported {form : Form α} {field : Slot × Field α}
    (member : field ∈ form.reported) : field.2.isList = field.1.holdsList :=
  isList_of_mem_fields (form.walkFields_perm.mem_iff.mp (List.mem_filter.mp member).1)

/-- The same construct with a new text and new children. -/
def refill (text : String) (child : Slot → Option β) (children : Slot → List β) :
    Form α → Form β
  | .leaf kind _ => .leaf kind text
  | .argument _ => .argument (child .expr)
  | .parameter .. => .parameter (child .variableType) (child .variable) (child .defaultValue)
  | .nullable _ => .nullable (child .expr)
  | .name qualification _ => .name qualification (children .parts)
  | .variableRef _ => .variableRef (child .varName)
  | .assign mode .. => .assign mode (child .variable) (child .expression)
  | .classConstFetch .. => .classConstFetch (child .class) (child .constantName)
  | .constFetch _ => .constFetch (child .constant)
  | .closure .. =>
    .closure (children .params) (children .uses) (child .returnType) (children .stmts)
  | .closureUse _ => .closureUse (child .variable)
  | .new .. => .new (child .class) (children .arguments)
  | .functionCall .. => .functionCall (child .function) (children .arguments)
  | .methodCall .. => .methodCall (child .variable) (child .method) (children .arguments)
  | .staticCall .. => .staticCall (child .class) (child .call) (children .arguments)
  | .propertyFetch .. => .propertyFetch (child .variable) (child .property)
  | .staticPropertyFetch .. => .staticPropertyFetch (child .class) (child .property)
  | .expression _ => .expression (child .expr)
  | .stmtList _ => .stmtList (children .stmts)
  | .function .. =>
    .function (child .functionName) (children .params) (child .returnType) (children .stmts)
  | .classDecl .. =>
    .classDecl (child .className) (children .modifiers) (children .args) (child .extends)
      (children .implements) (children .stmts)
  | .classMethod .. =>
    .classMethod (child .methodName) (children .modifiers) (children .params) (child .returnType)
      (children .stmts)
  | .throwStmt _ => .throwStmt (child .expr)
  | .returnStmt _ => .returnStmt (child .expr)
  | .echo _ => .echo (children .exprs)

theorem refill_fields (form : Form α) :
    form.refill (form.text?.getD "") (Field.childAt form.fields) (Field.childrenAt form.fields) =
      form := by
  cases form <;> rfl

theorem refill_walkFields (form : Form α) :
    form.refill (form.text?.getD "") (Field.childAt form.walkFields)
      (Field.childrenAt form.walkFields) = form := by
  cases form <;> rfl

/-! ## The label -/

def blank (form : Form α) : Form Empty := form.refill "" (fun _ => none) fun _ => []

/-- Every construct there is. -/
def blanks : List (Form Empty) :=
  .argument none :: .parameter none none none :: .nullable none :: .variableRef none ::
  .classConstFetch none none :: .constFetch none :: .closure [] [] none [] :: .closureUse none ::
  .new none [] :: .functionCall none [] :: .methodCall none none [] :: .staticCall none none [] ::
  .propertyFetch none none :: .staticPropertyFetch none none :: .expression none ::
  .stmtList [] :: .function none [] none [] :: .classDecl none [] [] none [] [] ::
  .classMethod none [] [] none [] :: .throwStmt none :: .returnStmt none :: .echo [] ::
  [LeafKind.identifier, .namePart, .integer, .decimal, .string].map (Form.leaf · "") ++
  [Qualification.unqualified, .fullyQualified, .relative].map (Form.name · []) ++
  (AssignMode.value :: .reference :: AssignOp.all.map .compound).map (Form.assign · none none)

theorem blank_mem (form : Form α) : form.blank ∈ blanks := by
  cases form with
  | leaf kind text => cases kind <;> simp [blank, refill, blanks]
  | name qualification parts => cases qualification <;> simp [blank, refill, blanks]
  | assign mode target source =>
      cases mode with
      | compound op => simp [blank, refill, blanks, op.mem_all]
      | _ => simp [blank, refill, blanks]
  | _ => simp [blank, refill, blanks]

@[simp]
theorem label_blank (form : Form α) : form.blank.label = form.label := by
  cases form with
  | leaf kind text => cases kind <;> rfl
  | name qualification parts => cases qualification <;> rfl
  | assign mode target source => cases mode <;> rfl
  | _ => rfl

@[simp]
theorem label_map (f : α → β) (form : Form α) : (form.map f).label = form.label := by
  cases form with
  | leaf kind text => cases kind <;> rfl
  | name qualification parts => cases qualification <;> rfl
  | assign mode target source => cases mode <;> rfl
  | _ => rfl

@[simp]
theorem text?_map (f : α → β) (form : Form α) : (form.map f).text? = form.text? := by
  cases form <;> rfl

/-- A compound assignment is labelled by its operator, anything else by its kind. -/
theorem label_eq (form : Form α) :
    form.label = (form.compoundOp?.map AssignOp.label).getD form.kindName := by
  cases form with
  | assign mode target source => cases mode <;> rfl
  | _ => rfl

theorem refill_blank (text : String) (child : Slot → Option β) (children : Slot → List β)
    (form : Form α) : form.blank.refill text child children = form.refill text child children := by
  cases form <;> rfl

/-- No two constructs have the same label. -/
theorem blank_eq_of_label {form other : Form α} (same : form.label = other.label) :
    form.blank = other.blank := by
  refine List.inj_on_of_nodup_map (f := label) (by decide) form.blank_mem other.blank_mem ?_
  rw [label_blank, label_blank, same]

theorem refill_eq_of_label {form other : Form α} (same : form.label = other.label) (text : String)
    (child : Slot → Option β) (children : Slot → List β) :
    form.refill text child children = other.refill text child children := by
  rw [← refill_blank, blank_eq_of_label same, refill_blank]

theorem isSome_text?_of_label {form other : Form α} (same : form.label = other.label) :
    form.text?.isSome = other.text?.isSome := by
  have blank : ∀ form : Form α, form.blank.text?.isSome = form.text?.isSome := by
    intro form
    cases form <;> rfl
  rw [← blank, blank_eq_of_label same, blank]

/-- A form is known by its label, its text and what its slots hold. -/
theorem eq_of_fields {form other : Form α} (labels : form.label = other.label)
    (texts : form.text? = other.text?) (fields : form.fields = other.fields) : form = other := by
  rw [← form.refill_fields, refill_eq_of_label labels, texts, fields, other.refill_fields]

theorem walkFields_nodup (form : Form α) : (form.walkFields.map Prod.fst).Nodup := by
  cases form <;> simp [walkFields, fields]

theorem refill_reported (form : Form α) :
    form.refill (form.text?.getD "") (Field.childAt form.reported)
      (Field.childrenAt form.reported) = form := by
  have same := Field.childAt_filter_isFilled form.walkFields_nodup
  rw [reported, funext fun slot => (same slot).1, funext fun slot => (same slot).2,
    refill_walkFields]

/-- What a walk reports of a form is enough as well. -/
theorem eq_of_reported {form other : Form α} (labels : form.label = other.label)
    (texts : form.text? = other.text?) (fields : form.reported = other.reported) :
    form = other := by
  rw [← form.refill_reported, refill_eq_of_label labels, texts, fields, other.refill_reported]

end Form

namespace Attributes

theorem eq_of_parts {attributes other : Attributes}
    (flags : ∀ flag, attributes.flag? flag = other.flag? flag)
    (docs : attributes.docComment = other.docComment)
    (comments : attributes.comments = other.comments) : attributes = other := by
  have byRef := flags .byRef
  have variadic := flags .variadic
  have static := flags .static
  have returnsRef := flags .returnsRef
  cases attributes
  cases other
  rw [mk.injEq]
  exact ⟨byRef, variadic, static, returnsRef, docs, comments⟩

theorem comments?_getD (attributes : Attributes) :
    attributes.comments?.getD [] = attributes.comments := by
  unfold comments?
  split
  · rename_i empty
    rw [List.isEmpty_iff.mp empty]
    rfl
  · rfl

/-- The flags can be told from what is said of them, whatever it is wrapped in. -/
theorem flags_inj {β : Type} {wrap : Bool → β} (wraps : Function.Injective wrap)
    {attributes other : Attributes}
    (same : Flag.all.map (fun flag => (flag.name, (attributes.flag? flag).map wrap)) =
      Flag.all.map fun flag => (flag.name, (other.flag? flag).map wrap)) (flag : Flag) :
    attributes.flag? flag = other.flag? flag := by
  have inside : flag ∈ Flag.all := by cases flag <;> decide
  exact Option.map_injective wraps (Prod.mk.inj (List.map_inj_left.mp same flag inside)).2

end Attributes
end PhpTree
