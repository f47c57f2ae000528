import Mathlib.Logic.Basic
import SurfaceReport.Proofs.StableOrder
import SurfaceReport.Proofs.Trace

/-!
# One declaration more

An exported declaration adds one node to a report and moves no other
(`build_gains_one_node`). It has its place among those of its kind: behind
what has a smaller name and what has the same name and is declared before
it, and in front of the rest.

Types, fields and methods reach a report in the same way, so all of it is
proved of a `Kind` of declaration. The key is that a sorted list can
be cut at any name (`sortedBy_at`) into what is smaller, what has that
name, as it was declared, and what is greater. With one element more, only
the middle part is another one; and without it, the list is cut at the
same place. For the members of a type there is a level in between,
where that type's node is exchanged: what is around it depends on its
full name alone.
-/

namespace SurfaceReport

/-- The nodes are the same except that in the midst of its children,
where the first has `old`, the second has `new`. -/
structure Node.DiffersIn (n n' : Node) (before old new behind : List Node) : Prop where
  tag : n.tag = n'.tag
  attributes : n.attributes = n'.attributes
  children : n.children = before ++ old ++ behind
  children' : n'.children = before ++ new ++ behind

namespace Report

/-! ## Kinds of declarations -/

/-- How declarations of one kind reach a report: by ascending name, those
that are kept, as a node each. -/
structure Kind (α : Type) where
  name : α → String
  keeps : α → Bool
  node : α → Node

namespace Kind

variable {α : Type} (kind : Kind α)

def nodes (xs : List α) : List Node := (sortedBy kind.name (xs.filter kind.keeps)).map kind.node

/-- The nodes of one name, as they are declared. -/
def nodesNamed (key : String) (xs : List α) : List Node :=
  ((xs.filter kind.keeps).filter fun b => kind.name b == key).map kind.node

/-- The nodes in front of what has the name `key` and is declared between
`front` and `back`. -/
def before (key : String) (front back : List α) : List Node :=
  kind.nodes ((front ++ back).filter fun b => decide (kind.name b < key))
    ++ kind.nodesNamed key front

/-- The nodes behind what has the name `key` and is declared between
`front` and `back`. -/
def behind (key : String) (front back : List α) : List Node :=
  kind.nodesNamed key back
    ++ kind.nodes ((front ++ back).filter fun b => decide (key < kind.name b))

theorem nodes_at (key : String) (xs : List α) :
    kind.nodes xs
      = kind.nodes (xs.filter fun b => decide (kind.name b < key))
        ++ (kind.nodesNamed key xs
          ++ kind.nodes (xs.filter fun b => decide (key < kind.name b))) := by
  rw [nodes, sortedBy_at kind.name key, List.map_append, List.map_append]
  simp only [nodes, nodesNamed, List.filter_filter, Bool.and_comm]

theorem nodesNamed_append (key : String) (front back : List α) :
    kind.nodesNamed key (front ++ back)
      = kind.nodesNamed key front ++ kind.nodesNamed key back := by
  simp only [nodesNamed, List.filter_append, List.map_append]

theorem nodes_append (key : String) (front back : List α) :
    kind.nodes (front ++ back) = kind.before key front back ++ kind.behind key front back := by
  rw [kind.nodes_at key, nodesNamed_append, before, behind, List.append_assoc, List.append_assoc]

theorem nodes_of_ascending {xs ys : List α} (hkept : xs.filter kind.keeps = ys)
    (hascending : ys.Pairwise fun a b => kind.name a ≤ kind.name b) :
    kind.nodes xs = ys.map kind.node := by
  rw [nodes, hkept, sortedBy_eq_self hascending]

/-- One declaration more is one node more. -/
theorem nodes_insert {a : α} (ha : kind.keeps a) (front back : List α) :
    kind.nodes (front ++ a :: back)
      = kind.before (kind.name a) front back
        ++ kind.node a :: kind.behind (kind.name a) front back := by
  have hother {p : α → Bool} (hp : p a = false) :
      (front ++ a :: back).filter p = (front ++ back).filter p := by
    simp [List.filter_append, hp]
  have hnamed : kind.nodesNamed (kind.name a) (a :: back)
      = kind.node a :: kind.nodesNamed (kind.name a) back := by
    simp [nodesNamed, ha]
  rw [kind.nodes_at (kind.name a), hother (decide_eq_false (String.lt_irrefl _)),
    hother (decide_eq_false (String.lt_irrefl _)), nodesNamed_append, hnamed, before, behind]
  simp only [List.append_assoc, List.cons_append]

end Kind

variable (rule : ExportRule)

def typeKind : Kind TypeDecl := ⟨TypeDecl.fullName, rule.exportsType, typeTree rule⟩

def fieldKind : Kind Field := ⟨Field.name, rule.exportsField, fieldNode⟩

def methodKind : Kind Method := ⟨Method.name, rule.exportsMethod, methodNode⟩

theorem moduleTrees_eq_nodes (m : Module) :
    moduleTrees rule m = (typeKind rule).nodes m.types :=
  rfl

theorem children_typeTree (t : TypeDecl) :
    (typeTree rule t).children
      = (fieldKind rule).nodes t.fields ++ (methodKind rule).nodes t.methods :=
  rfl

/-! ## Additions -/

/-- Whatever offers the modules leads to the report, if all events are
accepted. -/
def Builds (constraint : Option String) (name : String) (modules : List Module) (root : Node) :
    Prop :=
  ∀ source : Source, source.Offers name modules → ∃ events, LeadsTo source constraint root events

theorem builds_tree (constraint : Option String) (name : String) (modules : List Module) :
    Builds constraint name modules (tree (.within constraint) name modules) :=
  fun _ hsource => ⟨_, leadsTo_tree hsource constraint⟩

/-- The reports of the modules differ in this way only. -/
def ReportsDiffer (constraint : Option String) (name : String) (modules modules' : List Module)
    (before old new behind : List Node) : Prop :=
  ∃ root root', Builds constraint name modules root ∧ Builds constraint name modules' root'
    ∧ root.DiffersIn root' before old new behind

theorem reportsDiffer_of_trees {constraint : Option String} {name : String}
    {modules modules' : List Module} {before old new behind : List Node}
    (h : (tree (.within constraint) name modules).DiffersIn
      (tree (.within constraint) name modules') before old new behind) :
    ReportsDiffer constraint name modules modules' before old new behind :=
  ⟨_, _, builds_tree constraint name modules, builds_tree constraint name modules', h⟩

theorem typeTree_insert_field {t : TypeDecl} {front back : List Field} {f : Field}
    (ht : t.fields = front ++ back) (hf : rule.exportsField f) :
    (typeTree rule t).DiffersIn (typeTree rule { t with fields := front ++ f :: back })
      ((fieldKind rule).before f.name front back) [] [fieldNode f]
      ((fieldKind rule).behind f.name front back ++ (methodKind rule).nodes t.methods) where
  tag := rfl
  attributes := rfl
  children := by
    rw [children_typeTree, ht, (fieldKind rule).nodes_append f.name, List.append_nil,
      List.append_assoc]
  children' := by
    rw [children_typeTree, (fieldKind rule).nodes_insert hf, List.append_assoc, List.append_assoc]
    rfl

theorem typeTree_insert_method {t : TypeDecl} {front back : List Method} {m : Method}
    (ht : t.methods = front ++ back) (hm : rule.exportsMethod m) :
    (typeTree rule t).DiffersIn (typeTree rule { t with methods := front ++ m :: back })
      ((fieldKind rule).nodes t.fields ++ (methodKind rule).before m.name front back) []
      [methodNode m] ((methodKind rule).behind m.name front back) where
  tag := rfl
  attributes := rfl
  children := by
    rw [children_typeTree, ht, (methodKind rule).nodes_append m.name, List.append_nil,
      List.append_assoc]
  children' := by
    rw [children_typeTree, (methodKind rule).nodes_insert hm, List.append_assoc, List.append_assoc]
    rfl

section
variable (name : String) (earlier later : List Module) (moduleName : String)
  (front back : List TypeDecl)

theorem children_tree (xs : List TypeDecl) :
    (tree rule name (earlier ++ ⟨moduleName, xs⟩ :: later)).children
      = earlier.flatMap (moduleTrees rule)
        ++ ((typeKind rule).nodes xs ++ later.flatMap (moduleTrees rule)) := by
  rw [tree, rootNode, List.flatMap_append, List.flatMap_cons, moduleTrees_eq_nodes]

theorem tree_insert_type {t : TypeDecl} (ht : rule.exportsType t) :
    (tree rule name (earlier ++ ⟨moduleName, front ++ back⟩ :: later)).DiffersIn
      (tree rule name (earlier ++ ⟨moduleName, front ++ t :: back⟩ :: later))
      (earlier.flatMap (moduleTrees rule) ++ (typeKind rule).before t.fullName front back) []
      [typeTree rule t]
      ((typeKind rule).behind t.fullName front back ++ later.flatMap (moduleTrees rule)) where
  tag := rfl
  attributes := rfl
  children := by
    rw [children_tree, (typeKind rule).nodes_append t.fullName]
    simp only [List.append_assoc, List.append_nil]
  children' := by
    rw [children_tree, (typeKind rule).nodes_insert ht]
    simp only [List.append_assoc, List.cons_append, List.nil_append]
    rfl

/-- A type of the same full name has the same place. -/
theorem tree_exchange_type {t u : TypeDecl} (ht : rule.exportsType t) (hu : rule.exportsType u)
    (hname : t.fullName = u.fullName) :
    (tree rule name (earlier ++ ⟨moduleName, front ++ t :: back⟩ :: later)).DiffersIn
      (tree rule name (earlier ++ ⟨moduleName, front ++ u :: back⟩ :: later))
      (earlier.flatMap (moduleTrees rule) ++ (typeKind rule).before t.fullName front back)
      [typeTree rule t] [typeTree rule u]
      ((typeKind rule).behind t.fullName front back ++ later.flatMap (moduleTrees rule)) where
  tag := rfl
  attributes := rfl
  children := (tree_insert_type rule name earlier later moduleName front back ht).children'
  children' := by
    rw [hname]
    exact (tree_insert_type rule name earlier later moduleName front back hu).children'

/-- **One declaration more is one node more.** An exported type that is
declared between `front` and `back` adds its node to the report, behind
the nodes of the modules before its own, those of smaller full names and
those of its full name in `front`. An exported field or method adds its
node to that of its type, behind those of its kind which have a smaller
name or, declared before it, the same. -/
theorem build_gains_one_node (constraint : Option String) {t : TypeDecl}
    (ht : (ExportRule.within constraint).exportsType t) :
    let rule := ExportRule.within constraint
    let modulesWith := fun xs : List TypeDecl => earlier ++ ⟨moduleName, xs⟩ :: later
    let before := earlier.flatMap (moduleTrees rule) ++ (typeKind rule).before t.fullName front back
    let behind := (typeKind rule).behind t.fullName front back ++ later.flatMap (moduleTrees rule)
    ReportsDiffer constraint name (modulesWith (front ++ back)) (modulesWith (front ++ t :: back))
        before [] [typeTree rule t] behind
      ∧ (∀ front' f back', t.fields = front' ++ back' → rule.exportsField f →
        let u := { t with fields := front' ++ f :: back' }
        ReportsDiffer constraint name (modulesWith (front ++ t :: back))
            (modulesWith (front ++ u :: back)) before [typeTree rule t] [typeTree rule u] behind
          ∧ (typeTree rule t).DiffersIn (typeTree rule u)
            ((fieldKind rule).before f.name front' back') [] [fieldNode f]
            ((fieldKind rule).behind f.name front' back' ++ (methodKind rule).nodes t.methods))
      ∧ ∀ front' m back', t.methods = front' ++ back' → rule.exportsMethod m →
        let u := { t with methods := front' ++ m :: back' }
        ReportsDiffer constraint name (modulesWith (front ++ t :: back))
            (modulesWith (front ++ u :: back)) before [typeTree rule t] [typeTree rule u] behind
          ∧ (typeTree rule t).DiffersIn (typeTree rule u)
            ((fieldKind rule).nodes t.fields ++ (methodKind rule).before m.name front' back') []
            [methodNode m] ((methodKind rule).behind m.name front' back') := by
  intro rule modulesWith before behind
  have hexchange {u : TypeDecl} (hu : rule.exportsType u) (hname : t.fullName = u.fullName) :
      ReportsDiffer constraint name (modulesWith (front ++ t :: back))
        (modulesWith (front ++ u :: back)) before [typeTree rule t] [typeTree rule u] behind :=
    reportsDiffer_of_trees
      (tree_exchange_type rule name earlier later moduleName front back ht hu hname)
  refine ⟨?_, fun front' f back' hfields hf => ?_, fun front' m back' hmethods hm => ?_⟩
  · exact reportsDiffer_of_trees
      (tree_insert_type rule name earlier later moduleName front back ht)
  · exact ⟨hexchange ht rfl, typeTree_insert_field rule hfields hf⟩
  · exact ⟨hexchange ht rfl, typeTree_insert_method rule hmethods hm⟩

end

/-- A type that shares its full name with types of other namespaces. -/
def typeDeclaring (methods : List Method) : TypeDecl := { ns := "A", name := "B.C", methods }

/-- A method that shares its name with others. -/
def moveReturning (returnType : String) : Method :=
  ⟨"Move", returnType, .isPublic, .ordinary, []⟩

/-- A type is declared between two of its full name, and a method of it
between two that it overloads. -/
theorem additions_among_equal_names :
    let front : List TypeDecl := [{ ns := "A.B", name := "C" }, { ns := "", name := "Z" }]
    let back : List TypeDecl := [{ ns := "", name := "A.B.C" }, { ns := "", name := "A" }]
    let t := typeDeclaring [moveReturning "System.Void", moveReturning "System.Boolean"]
    let u := typeDeclaring
      [moveReturning "System.Void", moveReturning "System.Int32", moveReturning "System.Boolean"]
    (ExportRule.within none).exportsType t
      ∧ (∃ root root', Builds none "Game" [⟨"Game.dll", front ++ back⟩] root
        ∧ Builds none "Game" [⟨"Game.dll", front ++ t :: back⟩] root'
        ∧ root.children.map (·.attribute? "Namespace") = [some "", some "A.B", some "", some ""]
        ∧ root'.children.map (·.attribute? "Namespace")
          = [some "", some "A.B", some "A", some "", some ""])
      ∧ (typeTree (.within none) u).children.map (·.attribute? "ReturnType")
        = [some "Void", some "Int32", some "Boolean"] := by
  intro front back t u
  have ht : (ExportRule.within none).exportsType t := by decide +kernel
  obtain ⟨⟨root, root', hroot, hroot', htypes⟩, -, hmethod⟩ :=
    build_gains_one_node "Game" [] [] "Game.dll" front back none ht
  obtain ⟨-, hmembers⟩ := hmethod [moveReturning "System.Void"] (moveReturning "System.Int32")
    [moveReturning "System.Boolean"] rfl (by decide +kernel)
  have hbefore : (typeKind (.within none)).before t.fullName front back
      = [{ ns := "", name := "A" }].map (typeTree (.within none))
        ++ [{ ns := "A.B", name := "C" }].map (typeTree (.within none)) :=
    congrArg₂ (· ++ ·)
      ((typeKind _).nodes_of_ascending (by decide +kernel) (List.pairwise_singleton _ _))
      (congrArg (List.map _) (by decide +kernel))
  have hbehind : (typeKind (.within none)).behind t.fullName front back
      = [{ ns := "", name := "A.B.C" }].map (typeTree (.within none))
        ++ [{ ns := "", name := "Z" }].map (typeTree (.within none)) :=
    congrArg₂ (· ++ ·) (congrArg (List.map _) (by decide +kernel))
      ((typeKind _).nodes_of_ascending (by decide +kernel) (List.pairwise_singleton _ _))
  have hmoveBefore : (methodKind (.within none)).before (moveReturning "System.Int32").name
        [moveReturning "System.Void"] [moveReturning "System.Boolean"]
      = [].map methodNode ++ [moveReturning "System.Void"].map methodNode :=
    congrArg₂ (· ++ ·) ((methodKind _).nodes_of_ascending (by decide +kernel) .nil)
      (congrArg (List.map _) (by decide +kernel))
  have hmoveBehind : (methodKind (.within none)).behind (moveReturning "System.Int32").name
        [moveReturning "System.Void"] [moveReturning "System.Boolean"]
      = [moveReturning "System.Boolean"].map methodNode ++ [].map methodNode :=
    congrArg₂ (· ++ ·) (congrArg (List.map _) (by decide +kernel))
      ((methodKind _).nodes_of_ascending (by decide +kernel) .nil)
  have hfields : (fieldKind (.within none)).nodes t.fields = [].map fieldNode :=
    (fieldKind _).nodes_of_ascending rfl .nil
  have hmoves : (typeTree (.within none) u).children = _ := hmembers.children'
  refine ⟨ht, ⟨root, root', hroot, hroot', ?_, ?_⟩, ?_⟩
  · rw [htypes.children, hbefore, hbehind]
    rfl
  · rw [htypes.children', hbefore, hbehind]
    rfl
  · rw [hmoves, hmoveBefore, hmoveBehind, hfields]
    decide +kernel

end Report

end SurfaceReport
