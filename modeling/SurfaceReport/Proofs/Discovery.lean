import SurfaceReport.CommandLine
import SurfaceReport.Namespaces
import SurfaceReport.Proofs.Narrowing

/-!
# Listed namespaces and reports

The list of namespaces is found by a walk of its own: no member is looked
at, nothing is announced, nothing is sorted but the namespaces. It still
fits the report: it names the namespaces that the types of the
unconstrained report carry, each once, and so the constraints under which
a report shows anything.

Both walks are compared with the same condition on the declarations, that
some module declares an exported type of the namespace
(`mem_exportedNamespaces`, `exists_typeNode_iff`).
-/

namespace SurfaceReport

/-! ## Sorted lists without repetitions -/

theorem mem_distinct {x : String} {xs : List String} : x ∈ distinct xs ↔ x ∈ xs := by
  fun_induction distinct xs with
  | case1 => rfl
  | case2 y => rfl
  | case3 y z rest h ih =>
      rw [ih, eq_of_beq h, List.mem_cons (b := z) (l := z :: rest)]
      exact ⟨.inr, fun hx => hx.elim (fun hx => hx ▸ List.mem_cons_self ..) id⟩
  | case4 y z rest h ih =>
      rw [List.mem_cons, ih, List.mem_cons (a := x) (b := y)]

theorem distinct_ascending {xs : List String} (h : xs.Pairwise (· ≤ ·)) :
    (distinct xs).Pairwise (· < ·) := by
  fun_induction distinct xs with
  | case1 => exact .nil
  | case2 y => exact List.pairwise_singleton _ _
  | case3 y z rest heq ih => exact ih h.of_cons
  | case4 y z rest hne ih =>
      refine List.pairwise_cons.mpr ⟨fun x hx => ?_, ih h.of_cons⟩
      have hyz : y < z :=
        Std.lt_of_le_of_ne (List.rel_of_pairwise_cons h (List.mem_cons_self ..))
          fun heq => hne (beq_iff_eq.mpr heq)
      rcases List.mem_cons.mp (mem_distinct.mp hx) with rfl | hrest
      · exact hyz
      · exact Std.lt_of_lt_of_le hyz (List.rel_of_pairwise_cons h.of_cons hrest)

/-! ## Who exports a namespace -/

/-- Some module declares an exported type of the namespace. -/
def Exports (modules : List Module) (ns : String) : Prop :=
  ∃ m ∈ modules, ∃ t ∈ m.types, (ExportRule.within none).exportsType t = true ∧ t.ns = ns

theorem mem_exportedNamespaces {modules : List Module} {ns : String} :
    ns ∈ exportedNamespaces modules ↔ ns ≠ "" ∧ Exports modules ns := by
  simp only [exportedNamespaces, mem_distinct, Report.mem_sortedBy, List.mem_map,
    List.mem_filter, List.mem_flatMap, Bool.and_eq_true, Bool.not_eq_true',
    String.isEmpty_eq_false_iff, Exports]
  constructor
  · rintro ⟨t, ⟨⟨m, hm, ht⟩, hns, hexp⟩, rfl⟩
    exact ⟨hns, m, hm, t, ht, hexp, rfl⟩
  · rintro ⟨hns, m, hm, t, ht, hexp, rfl⟩
    exact ⟨t, ⟨⟨m, hm, ht⟩, hns, hexp⟩, rfl⟩

theorem exportedNamespaces_ascending (modules : List Module) :
    (exportedNamespaces modules).Pairwise Utf8.Before :=
  (distinct_ascending (Report.sortedBy_ascending id _)).imp Utf8.before_iff_lt.mpr

theorem discoverNamespaces_of_offers {σ : Type} {source : Source} {name : String}
    {modules : List Module} (hsource : source.Offers name modules) (s : σ) :
    ((discoverNamespaces source).runFrom s).1 = .ok (exportedNamespaces modules) := by
  rw [Recording.runFrom_eq, discoverNamespaces,
    Recording.after_bind_of_ok (Recording.after_read hsource _), Recording.after_pure]

/-! ## Which namespaces a report shows -/

namespace Report

variable {rule : ExportRule} {name : String} {modules : List Module}

theorem mem_tree {n : Node} :
    n ∈ (tree rule name modules).children
      ↔ ∃ m ∈ modules, ∃ t ∈ m.types, rule.exportsType t = true ∧ typeTree rule t = n := by
  simp [tree, rootNode, moduleTrees, exportedTypes, and_assoc]

def IsTypeOf (ns : String) (n : Node) : Prop :=
  n.tag = "Type" ∧ n.attribute? "Namespace" = some ns

theorem isTypeOf_typeTree {ns : String} {t : TypeDecl} :
    IsTypeOf ns (typeTree rule t) ↔ t.ns = ns := by
  simp [IsTypeOf, typeTree, typeNode, Node.attribute?]

theorem exists_typeNode_iff {ns : String} :
    (∃ n ∈ (tree (.within none) name modules).children, IsTypeOf ns n) ↔ Exports modules ns := by
  constructor
  · rintro ⟨n, hn, hns⟩
    obtain ⟨m, hm, t, ht, hexp, rfl⟩ := mem_tree.mp hn
    exact ⟨m, hm, t, ht, hexp, isTypeOf_typeTree.mp hns⟩
  · rintro ⟨m, hm, t, ht, hexp, hns⟩
    exact ⟨_, mem_tree.mpr ⟨m, hm, t, ht, hexp, rfl⟩, isTypeOf_typeTree.mpr hns⟩

theorem isTypeOf_of_mem_tree {ns : String} (hns : ns ≠ "") {n : Node}
    (hn : n ∈ (tree (.within (some ns)) name modules).children) : IsTypeOf ns n := by
  obtain ⟨m, -, t, -, hexp, rfl⟩ := mem_tree.mp hn
  rw [ExportRule.exportsType_within hns, Bool.and_eq_true] at hexp
  exact isTypeOf_typeTree.mpr (eq_of_beq hexp.2)

theorem exists_type_within_iff (name : String) {ns : String} (hns : ns ≠ "") :
    (∃ n ∈ (tree (.within (some ns)) name modules).children, n.tag = "Type")
      ↔ Exports modules ns := by
  constructor
  · rintro ⟨n, hn, -⟩
    obtain ⟨m, hm, t, ht, hexp, rfl⟩ := mem_tree.mp hn
    rw [ExportRule.exportsType_within hns, Bool.and_eq_true] at hexp
    exact ⟨m, hm, t, ht, hexp.1, eq_of_beq hexp.2⟩
  · rintro ⟨m, hm, t, ht, hexp, rfl⟩
    refine ⟨_, mem_tree.mpr ⟨m, hm, t, ht, ?_, rfl⟩, rfl⟩
    rw [ExportRule.exportsType_within hns, hexp, beq_self_eq_true, Bool.and_self]

end Report

/-! ## Asking for a listed namespace -/

/-- A name that is neither empty nor an option stands for itself. -/
theorem NamespaceChoice.ofArgument_of_name {ns : String} (hns : ns ≠ "")
    (hoption : ¬['-', '-'] <+: ns.toList) : ofArgument (some ns) = only ns := by
  have hname : isNoName ns = false := by
    rw [isNoName, Bool.or_eq_false_iff]
    refine ⟨by simpa using hns, ?_⟩
    rw [← Bool.not_eq_true, List.isPrefixOf_iff_prefix]
    exact hoption
  simp [ofArgument, hname]

/-- A list of namespaces fits the unconstrained report of its source, and
so do the reports that can be asked for with the list in hand. -/
structure ListingFits {σ : Type} (sink : EventSink σ) (source : Source) (s : σ)
    (listed : List String) (root : Node) : Prop where
  /-- In the order of their bytes, each once. -/
  ascending : listed.Pairwise Utf8.Before
  /-- Listed is what the types of the report carry, if it is a name. -/
  carried : ∀ ns, ns ∈ listed ↔ ns ≠ "" ∧ ∃ n ∈ root.children, Report.IsTypeOf ns n
  /-- A report under a namespace shows a type exactly if the namespace is listed. -/
  shown : ∀ ns, ns ≠ "" → ∃ narrowed,
    ((Report.build sink (.within (some ns)) source).runFrom s).1 = .ok narrowed
      ∧ ((∃ n ∈ narrowed.children, n.tag = "Type") ↔ ns ∈ listed)
  /-- A listed namespace stands for itself, unless it looks like an option. -/
  named : ∀ ns ∈ listed, ¬['-', '-'] <+: ns.toList →
    (NamespaceChoice.ofArgument (some ns)).constraint? = some ns
  /-- Given back on the command line, it leads to a report of its types. -/
  exported : ∀ ns ∈ listed, ¬['-', '-'] <+: ns.toList →
    ∀ given : CommandLine.Arguments, given.ns = some ns →
      ∀ config, given.config? = some config → ∃ report,
        ((Report.build sink (.within config.namespaces.constraint?) source).runFrom s).1
            = .ok report
          ∧ report.children ≠ [] ∧ ∀ n ∈ report.children, Report.IsTypeOf ns n

/-- **Listing and reporting agree.** If the source can be read, the
namespaces are listed and the unconstrained report is built, and the two
fit. -/
theorem discoverNamespaces_fits_build {σ : Type} {sink : EventSink σ} {source : Source}
    {name : String} {modules : List Module} (hsource : source.Offers name modules)
    (hsink : sink.AcceptsAll) (s : σ) :
    ∃ listed root, ((discoverNamespaces source).runFrom s).1 = .ok listed
      ∧ ((Report.build sink (.within none) source).runFrom s).1 = .ok root
      ∧ ListingFits sink source s listed root := by
  have hbuild : ∀ constraint, ((Report.build sink (.within constraint) source).runFrom s).1
      = .ok (Report.tree (.within constraint) name modules) := fun constraint => by
    rw [Report.build_accepted hsource hsink]
  refine ⟨exportedNamespaces modules, _, discoverNamespaces_of_offers hsource s, hbuild none, ?_⟩
  constructor
  case ascending => exact exportedNamespaces_ascending modules
  case carried =>
      intro ns
      rw [mem_exportedNamespaces, Report.exists_typeNode_iff]
  case shown =>
      intro ns hns
      refine ⟨_, hbuild (some ns), ?_⟩
      rw [mem_exportedNamespaces, Report.exists_type_within_iff name hns]
      exact ⟨fun h => ⟨hns, h⟩, And.right⟩
  case named =>
      intro ns hlisted hoption
      rw [NamespaceChoice.ofArgument_of_name (mem_exportedNamespaces.mp hlisted).1 hoption]
      rfl
  case exported =>
      intro ns hlisted hoption given hgiven config hconfig
      obtain ⟨hns, hexports⟩ := mem_exportedNamespaces.mp hlisted
      have hconstraint : config.namespaces.constraint? = some ns := by
        obtain ⟨path, -, rfl⟩ := Option.map_eq_some_iff.mp hconfig
        show (NamespaceChoice.ofArgument given.ns).constraint? = some ns
        rw [hgiven, NamespaceChoice.ofArgument_of_name hns hoption]
        rfl
      obtain ⟨n, hn, -⟩ := (Report.exists_type_within_iff name hns).mpr hexports
      rw [hconstraint]
      exact ⟨_, hbuild (some ns), List.ne_nil_of_mem hn,
        fun n hn => Report.isTypeOf_of_mem_tree hns hn⟩

theorem discoverNamespaces_fits_meeting_names :
    (Source.ofModules "Game" modulesWithMeetingNames).Offers "Game" modulesWithMeetingNames
      ∧ EventSink.memory.AcceptsAll
      ∧ ∃ listed root,
        ((discoverNamespaces (.ofModules "Game" modulesWithMeetingNames)).runFrom
            ([] : List Event)).1 = .ok listed
          ∧ ((Report.build .memory (.within none)
              (.ofModules "Game" modulesWithMeetingNames)).runFrom []).1 = .ok root
          ∧ ListingFits .memory (.ofModules "Game" modulesWithMeetingNames) [] listed root :=
  ⟨offers_meeting_names, EventSink.memory_acceptsAll,
    discoverNamespaces_fits_build offers_meeting_names EventSink.memory_acceptsAll []⟩

end SurfaceReport
