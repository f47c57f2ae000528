import SurfaceReport.Proofs.Walk
import SurfaceReport.Proofs.XmlReader

/-!
# Nothing is lost in writing

A document read back is the tree it was written from (`decode?_bytes`),
so no two trees are written as the same bytes. The nodes that reports are
made of have names, so this holds of every report (`build_wellNamed`).

The proof goes up the levels of the reader: a value, an attribute, a row
of attributes, a tag, the tags of a tree, the tree. Each level is stated
with any characters behind it, so that the level above can put its own
there; a name or a row of attributes needs to know of them only that they
do not go on with it. The tags of a tree (`tagsOf`) stand between the
two stages: the lines of a node are read as its tags
(`readTags_markup`), and its tags, taken one by one, hang the node below
whatever is open (`foldlM_nest_tagsOf`).
-/

namespace SurfaceReport

namespace Xml

/-! ## Values -/

theorem unescaped?_of_ne {c : Char} (h : c ≠ '&') (rest : List Char) :
    unescaped? (c :: rest) = (unescaped? rest).map (c :: ·) := by
  rw [unescaped?.eq_def]
  split <;> simp_all

theorem unescaped?_escape (c : Char) (rest : List Char) :
    unescaped? (escape c ++ rest) = (unescaped? rest).map (c :: ·) := by
  fun_cases escape c with
  | case1 => rfl
  | case2 => rfl
  | case3 => rfl
  | case4 => rfl
  | case5 => rfl
  | case6 c hlt hgt hamp hapos hquot => exact unescaped?_of_ne hamp rest

theorem unescaped?_escaped (value : List Char) : unescaped? (escaped value) = some value := by
  induction value with
  | nil => rfl
  | cons c value ih =>
      rw [escaped, List.flatMap_cons, unescaped?_escape, ← escaped, ih]
      rfl

theorem all_escape (c : Char) : (escape c).all (· ≠ '\x22') = true := by
  fun_cases escape c with
  | case1 => rfl
  | case2 => rfl
  | case3 => rfl
  | case4 => rfl
  | case5 => rfl
  | case6 c hlt hgt hamp hapos hquot =>
      have hne : c ≠ '\x22' := hquot
      rw [List.all_cons, List.all_nil, decide_eq_true hne]
      rfl

theorem not_quote_of_mem_escaped {value : List Char} :
    ∀ c ∈ escaped value, decide (c ≠ '\x22') = true := by
  intro c hc
  obtain ⟨d, -, hd⟩ := List.mem_flatMap.mp hc
  exact List.all_eq_true.mp (all_escape d) c hd

theorem takeWhile_append_cons {p : Char → Bool} {word : List Char} {d : Char}
    (hword : ∀ c ∈ word, p c = true) (hd : p d = false) (rest : List Char) :
    (word ++ d :: rest).takeWhile p = word := by
  rw [List.takeWhile_append_of_pos hword, List.takeWhile_cons_of_neg (by simp [hd]),
    List.append_nil]

theorem dropWhile_append_cons {p : Char → Bool} {word : List Char} {d : Char}
    (hword : ∀ c ∈ word, p c = true) (hd : p d = false) (rest : List Char) :
    (word ++ d :: rest).dropWhile p = d :: rest := by
  rw [List.dropWhile_append_of_pos hword, List.dropWhile_cons_of_neg (by simp [hd])]

theorem readValue_escaped (value : String) (rest : List Char) :
    readValue (escaped value.toList ++ '\x22' :: rest) = some (value, rest) := by
  rw [readValue, dropWhile_append_cons not_quote_of_mem_escaped (by decide),
    takeWhile_append_cons not_quote_of_mem_escaped (by decide), unescaped?_escaped]
  simp

/-! ## Names and attributes -/

theorem exists_nameStart {name : String} (h : IsName name) :
    ∃ c tail, name.toList = c :: tail ∧ isNameStart c = true := by
  rw [IsName] at h
  cases hname : name.toList with
  | nil =>
      rw [hname] at h
      cases h
  | cons c tail =>
      rw [hname, isName, Bool.and_eq_true] at h
      exact ⟨c, tail, rfl, h.1⟩

theorem isNameChar_of_isName {name : String} (h : IsName name) :
    ∀ c ∈ name.toList, isNameChar c = true := by
  rw [IsName] at h
  cases hname : name.toList with
  | nil => exact fun c hc => (List.not_mem_nil hc).elim
  | cons c rest =>
      rw [hname, isName, Bool.and_eq_true, List.all_eq_true] at h
      intro d hd
      rcases List.mem_cons.mp hd with rfl | hrest
      · rw [isNameChar, h.1, Bool.true_or]
      · exact h.2 d hrest

theorem readName_append {name : String} (h : IsName name) {d : Char}
    (hd : isNameChar d = false) (rest : List Char) :
    readName (name.toList ++ d :: rest) = (name, d :: rest) := by
  rw [readName, takeWhile_append_cons (isNameChar_of_isName h) hd,
    dropWhile_append_cons (isNameChar_of_isName h) hd, String.ofList_toList]

theorem readAttribute_append {a : String × String} (h : IsName a.1) (rest : List Char) :
    readAttribute (writtenAttribute a ++ rest) = some (a, rest) := by
  have hwritten : writtenAttribute a ++ rest
      = ' ' :: (a.1.toList ++ '=' :: '\x22' :: (escaped a.2.toList ++ '\x22' :: rest)) := by
    simp [writtenAttribute]
  rw [hwritten, readAttribute, readName_append h (by decide)]
  simp [readValue_escaped]

theorem readAttributes_of_some {cs rest : List Char} {a : String × String}
    (h : readAttribute cs = some (a, rest)) :
    readAttributes cs = (a :: (readAttributes rest).1, (readAttributes rest).2) := by
  rw [readAttributes]
  split <;> simp_all

theorem readAttributes_of_none {cs : List Char} (h : readAttribute cs = none) :
    readAttributes cs = ([], cs) := by
  rw [readAttributes]
  split <;> simp_all

theorem readAttributes_append {attributes : List (String × String)}
    (h : ∀ a ∈ attributes, IsName a.1) {d : Char} (hd : d ≠ ' ') (rest : List Char) :
    readAttributes (attributes.flatMap writtenAttribute ++ d :: rest)
      = (attributes, d :: rest) := by
  induction attributes with
  | nil =>
      refine readAttributes_of_none ?_
      rw [List.flatMap_nil, List.nil_append, readAttribute.eq_def]
      simp [hd]
  | cons a attributes ih =>
      rw [List.flatMap_cons, List.append_assoc,
        readAttributes_of_some (readAttribute_append (h a (List.mem_cons_self ..)) _),
        ih fun b hb => h b (List.mem_cons_of_mem _ hb)]

/-! ## Tags -/

theorem exists_head_attributes (attributes : List (String × String)) {d : Char}
    (hd : isNameChar d = false) (rest : List Char) :
    ∃ c tail, attributes.flatMap writtenAttribute ++ d :: rest = c :: tail
      ∧ isNameChar c = false := by
  cases attributes with
  | nil => exact ⟨d, rest, rfl, hd⟩
  | cons a attributes => exact ⟨' ', _, rfl, by decide⟩

/-- The name and the attributes of a node's tag, whatever bracket ends it. -/
theorem read_tagBody {n : Node} (htag : IsName n.tag) (hattributes : ∀ a ∈ n.attributes, IsName a.1)
    {d : Char} (hd : isNameChar d = false) (hspace : d ≠ ' ') (rest : List Char) :
    (readName (tagBody n ++ d :: rest)).1 = n.tag
      ∧ readAttributes (readName (tagBody n ++ d :: rest)).2 = (n.attributes, d :: rest) := by
  obtain ⟨c, tail, htail, hc⟩ := exists_head_attributes n.attributes hd rest
  rw [tagBody, List.append_assoc, htail, readName_append htag hc, ← htail]
  exact ⟨rfl, readAttributes_append hattributes hspace rest⟩

theorem readTag_of_isName {name : String} (h : IsName name) (rest : List Char) :
    readTag ('<' :: (name.toList ++ rest)) = readOpening (name.toList ++ rest) := by
  obtain ⟨c, tail, hname, hstart⟩ := exists_nameStart h
  have hc : c ≠ '/' := by
    rintro rfl
    exact absurd hstart (by decide)
  rw [hname, List.cons_append, readTag.eq_def]
  split <;> simp_all

theorem readTag_emptyTag {n : Node} (htag : IsName n.tag)
    (hattributes : ∀ a ∈ n.attributes, IsName a.1) (rest : List Char) :
    readTag (emptyTag n ++ rest) = some (.empty n.tag n.attributes, rest) := by
  have hwritten : emptyTag n ++ rest = '<' :: (tagBody n ++ '/' :: '>' :: rest) := by
    simp [emptyTag]
  obtain ⟨hname, hread⟩ := read_tagBody htag hattributes (d := '/') (by decide) (by decide)
    ('>' :: rest)
  rw [hwritten, tagBody, List.append_assoc, readTag_of_isName htag, ← List.append_assoc, ← tagBody,
    readOpening, hread, hname]
  rfl

theorem readTag_startTag {n : Node} (htag : IsName n.tag)
    (hattributes : ∀ a ∈ n.attributes, IsName a.1) (rest : List Char) :
    readTag (startTag n ++ rest) = some (.start n.tag n.attributes, rest) := by
  have hwritten : startTag n ++ rest = '<' :: (tagBody n ++ '>' :: rest) := by
    simp [startTag]
  obtain ⟨hname, hread⟩ := read_tagBody htag hattributes (d := '>') (by decide) (by decide) rest
  rw [hwritten, tagBody, List.append_assoc, readTag_of_isName htag, ← List.append_assoc, ← tagBody,
    readOpening, hread, hname]
  rfl

theorem readTag_endTag {n : Node} (htag : IsName n.tag) (rest : List Char) :
    readTag (endTag n ++ rest) = some (.close n.tag, rest) := by
  have hwritten : endTag n ++ rest = '<' :: '/' :: (n.tag.toList ++ '>' :: rest) := by
    simp [endTag]
  rw [hwritten, readTag, readClosing, readName_append htag (by decide)]
  rfl

/-! ## The tags of a tree -/

mutual

/-- The tags that a node is written as. -/
def tagsOf : Node → List Tag
  | ⟨tag, attributes, []⟩ => [.empty tag attributes]
  | ⟨tag, attributes, child :: children⟩ =>
    .start tag attributes :: (tagsOf child ++ tagsOfAll children) ++ [.close tag]

def tagsOfAll : List Node → List Tag
  | [] => []
  | n :: rest => tagsOf n ++ tagsOfAll rest

end

mutual

/-- Taking a node's tags hangs the node below the innermost open node. -/
theorem foldlM_nest_tagsOf : ∀ (n parent : Node) (outer : List Node),
    (tagsOf n).foldlM nest (parent :: outer) = some (parent.withChildren [n] :: outer)
  | ⟨tag, attributes, []⟩, parent, outer => by
      simp [tagsOf, nest]
  | ⟨tag, attributes, child :: children⟩, parent, outer => by
      -- The node is opened, gets its first child, then the others, and is closed below `parent`.
      have hopened : nest (parent :: outer) (.start tag attributes)
          = some (⟨tag, attributes, []⟩ :: parent :: outer) := rfl
      have hchild : (tagsOf child).foldlM nest (⟨tag, attributes, []⟩ :: parent :: outer)
          = some (⟨tag, attributes, [child]⟩ :: parent :: outer) :=
        foldlM_nest_tagsOf child _ _
      have hchildren : (tagsOfAll children).foldlM nest
            (⟨tag, attributes, [child]⟩ :: parent :: outer)
          = some (⟨tag, attributes, child :: children⟩ :: parent :: outer) :=
        foldlM_nest_tagsOfAll children _ _
      have hclosed : nest (⟨tag, attributes, child :: children⟩ :: parent :: outer) (.close tag)
          = some (parent.withChildren [⟨tag, attributes, child :: children⟩] :: outer) :=
        if_pos rfl
      simp [tagsOf, hopened, hchild, hchildren, hclosed]

theorem foldlM_nest_tagsOfAll : ∀ (children : List Node) (parent : Node) (outer : List Node),
    (tagsOfAll children).foldlM nest (parent :: outer)
      = some (parent.withChildren children :: outer)
  | [], parent, outer => by
      cases parent
      simp [tagsOfAll, Node.withChildren]
  | n :: rest, parent, outer => by
      rw [tagsOfAll, List.foldlM_append, foldlM_nest_tagsOf n, Option.bind_eq_bind,
        Option.bind_some, foldlM_nest_tagsOfAll rest]
      simp [Node.withChildren]

end

theorem treeOf?_tagsOf (root : Node) : treeOf? (tagsOf root) = some root := by
  rw [treeOf?, documentNode, foldlM_nest_tagsOf]
  rfl

/-! ## Lines -/

/-- Lines as they stand in a file, each of them ended. -/
def written (lines : List (List Char)) : List Char :=
  lines.flatMap fun line => line ++ ['\n']

theorem written_append (first second : List (List Char)) (rest : List Char) :
    written (first ++ second) ++ rest = written first ++ (written second ++ rest) := by
  rw [written, List.flatMap_append, List.append_assoc, ← written, ← written]

theorem readTags_lineEnd (cs : List Char) : readTags ('\n' :: cs) = readTags cs := by
  rw [readTags, if_pos (Or.inr rfl)]

theorem readTags_blanks (count : Nat) (cs : List Char) :
    readTags (List.replicate count ' ' ++ cs) = readTags cs := by
  induction count with
  | zero => rfl
  | succ count ih =>
      rw [List.replicate_succ, List.cons_append, readTags, if_pos (Or.inl rfl), ih]

theorem readTags_of_some {cs rest : List Char} {tag : Tag}
    (h : readTag ('<' :: cs) = some (tag, rest)) :
    readTags ('<' :: cs) = (readTags rest).map (tag :: ·) := by
  rw [readTags, if_neg (by decide)]
  split <;> simp_all

/-- A line that holds one tag is read as that tag, however it is indented. -/
theorem readTags_line {line : List Char} {tag : Tag}
    (hline : ∀ rest, readTag (line ++ rest) = some (tag, rest)) (hhead : line.head? = some '<')
    (depth : Nat) (rest : List Char) :
    readTags (written [indent depth ++ line] ++ rest) = (readTags rest).map (tag :: ·) := by
  obtain ⟨tail, rfl⟩ := List.head?_eq_some_iff.mp hhead
  have hcs : written [indent depth ++ '<' :: tail] ++ rest
      = List.replicate (2 * depth) ' ' ++ '<' :: (tail ++ '\n' :: rest) := by
    simp [written, indent]
  have hread : readTag ('<' :: (tail ++ '\n' :: rest)) = some (tag, '\n' :: rest) := hline _
  rw [hcs, readTags_blanks, readTags_of_some hread, readTags_lineEnd]

/-- Nodes of which each is read as its tags are read as all their tags. -/
theorem readTags_markupAll {depth : Nat} {children : List Node}
    (h : ∀ child ∈ children, ∀ rest, readTags (written (markup depth child) ++ rest)
      = (readTags rest).map (tagsOf child ++ ·)) (rest : List Char) :
    readTags (written (markupAll depth children) ++ rest)
      = (readTags rest).map (tagsOfAll children ++ ·) := by
  induction children with
  | nil => simp [markupAll, tagsOfAll, written]
  | cons child children ih =>
      have hrest := ih fun n hn => h n (List.mem_cons_of_mem _ hn)
      rw [markupAll, written_append, h child (List.mem_cons_self ..), hrest, Option.map_map,
        tagsOfAll]
      simp [Function.comp_def]

theorem markup_cons (depth : Nat) (tag : String) (attributes : List (String × String))
    (child : Node) (children : List Node) :
    markup depth ⟨tag, attributes, child :: children⟩
      = [indent depth ++ startTag ⟨tag, attributes, []⟩]
        ++ (markupAll (depth + 1) (child :: children)
          ++ [indent depth ++ endTag ⟨tag, attributes, []⟩]) := by
  simp [markup, markupAll]

theorem readTags_markup {n : Node} (h : WellNamed n) : ∀ (depth : Nat) (rest : List Char),
    readTags (written (markup depth n) ++ rest) = (readTags rest).map (tagsOf n ++ ·) := by
  -- The hypothesis reads each child at any depth and in front of any characters.
  induction h with
  | @intro n htag hattributes hchildren ih =>
      intro depth rest
      rcases n with ⟨tag, attributes, _ | ⟨child, children⟩⟩
      · exact readTags_line (readTag_emptyTag htag hattributes) rfl depth rest
      · have hstart := readTags_line
          (readTag_startTag (n := ⟨tag, attributes, []⟩) htag hattributes) rfl depth
        have hinner := readTags_markupAll fun n hn => ih n hn (depth + 1)
        have hend := readTags_line (readTag_endTag (n := ⟨tag, attributes, []⟩) htag) rfl depth rest
        rw [markup_cons, written_append, written_append, hstart, hinner, hend]
        simp [tagsOf, tagsOfAll, Function.comp_def]

/-! ## Documents -/

theorem parse?_document {root : Node} (h : WellNamed root) :
    parse? (document root) = some root := by
  have hdocument : document root = declaration ++ '\n' :: (written (markup 0 root) ++ []) := by
    simp [document, written]
  rw [parse?, hdocument, if_pos (by simp), List.drop_left, readTags_lineEnd, readTags_markup h,
    readTags, Option.map_some, Option.bind_some, List.append_nil, treeOf?_tagsOf]

theorem fromUTF8?_bytes (root : Node) : String.fromUTF8? (bytes root) = some (text root) := by
  rw [bytes, String.toUTF8_eq_toByteArray, String.fromUTF8?, dif_pos (text root).isValidUTF8]
  rfl

/-- **Reading undoes writing.** -/
theorem decode?_bytes {root : Node} (h : WellNamed root) : decode? (bytes root) = some root := by
  rw [decode?, fromUTF8?_bytes, Option.bind_some, text, String.toList_ofList, parse?_document h]

theorem eq_of_bytes_eq {first second : Node} (hfirst : WellNamed first) (hsecond : WellNamed second)
    (h : bytes first = bytes second) : first = second := by
  have hread := decode?_bytes hfirst
  rw [h, decode?_bytes hsecond] at hread
  exact (Option.some.inj hread).symm

/-! ## Trees of named nodes -/

theorem wellNamed_of_names {n : Node} (htag : IsName n.tag)
    (hnames : ∀ name ∈ n.attributes.map Prod.fst, IsName name)
    (hchildren : ∀ child ∈ n.children, WellNamed child) : WellNamed n :=
  .intro htag (fun _ ha => hnames _ (List.mem_map_of_mem ha)) hchildren

theorem wellNamed_leaf {tag : String} {attributes : List (String × String)} (htag : IsName tag)
    (hnames : ∀ name ∈ attributes.map Prod.fst, IsName name) : WellNamed ⟨tag, attributes, []⟩ :=
  wellNamed_of_names htag hnames fun _ hchild => (List.not_mem_nil hchild).elim

end Xml

/-! ## The names in reports -/

namespace Report

open Xml Recording

/-- The nodes that reports are made of, as tags with the attributes' names. -/
def shapes : List (String × List String) :=
  [("Assembly", ["Name"]), ("Type", ["Namespace", "FullName"]), ("Field", ["Name", "Type"]),
    ("Method", ["Name", "ReturnType"]), ("Parameter", ["Name", "Type"])]

/-- The node is one that reports are made of. -/
def IsShaped (n : Node) : Prop := (n.tag, n.attributes.map Prod.fst) ∈ shapes

theorem typeTree_shaped (rule : ExportRule) (t : TypeDecl) : Every IsShaped (typeTree rule t) := by
  refine .intro (by decide : ("Type", ["Namespace", "FullName"]) ∈ shapes) fun member hmember => ?_
  rcases List.mem_append.mp hmember with hfield | hmethod
  · obtain ⟨f, -, rfl⟩ := List.mem_map.mp hfield
    exact .intro (by decide : ("Field", ["Name", "Type"]) ∈ shapes)
      fun child hchild => (List.not_mem_nil hchild).elim
  · obtain ⟨m, -, rfl⟩ := List.mem_map.mp hmethod
    refine .intro (by decide : ("Method", ["Name", "ReturnType"]) ∈ shapes) fun child hchild => ?_
    obtain ⟨p, -, rfl⟩ := List.mem_map.mp hchild
    exact .intro (by decide : ("Parameter", ["Name", "Type"]) ∈ shapes)
      fun child hchild => (List.not_mem_nil hchild).elim

theorem tree_shaped (rule : ExportRule) (name : String) (modules : List Module) :
    Every IsShaped (tree rule name modules) := by
  refine .intro (by decide : ("Assembly", ["Name"]) ∈ shapes) fun child hchild => ?_
  obtain ⟨m, -, hm⟩ := List.mem_flatMap.mp hchild
  obtain ⟨t, -, rfl⟩ := List.mem_map.mp hm
  exact typeTree_shaped rule t

theorem wellNamed_of_shaped {root : Node} (h : Every IsShaped root) : WellNamed root := by
  have hnames : ∀ shape ∈ shapes, IsName shape.1 ∧ ∀ name ∈ shape.2, IsName name := by decide
  induction h with
  | intro self _ ih => exact wellNamed_of_names (hnames _ self).1 (hnames _ self).2 ih

theorem build_shaped {σ : Type} {sink : EventSink σ} {rule : ExportRule} {source : Source}
    {s : σ} {root : Node} (h : ((build sink rule source).runFrom s).1 = .ok root) :
    Every IsShaped root := by
  obtain ⟨name, modules, rfl⟩ := exists_tree_of_build h
  exact tree_shaped rule name modules

/-- Whatever is recorded on the way: what is built is a report. -/
theorem build_wellNamed {σ : Type} {sink : EventSink σ} {rule : ExportRule} {source : Source}
    {s : σ} {root : Node} (h : ((build sink rule source).runFrom s).1 = .ok root) :
    WellNamed root :=
  wellNamed_of_shaped (build_shaped h)

end Report

/-! ## Documents lose nothing -/

open Xml Recording

/-- **Documents lose nothing.** Every tree of named nodes is read back
from its document, so different trees have different documents. What is
built is such a tree, whichever source it is built from. -/
theorem documents_lose_nothing :
    (∀ root, WellNamed root → decode? (bytes root) = some root)
      ∧ (∀ first second, WellNamed first → WellNamed second → first ≠ second →
          bytes first ≠ bytes second)
      ∧ (∀ {σ : Type} (sink : EventSink σ) (rule : ExportRule) (source : Source) (s : σ)
          (root : Node), ((Report.build sink rule source).runFrom s).1 = .ok root →
          WellNamed root) := by
  refine ⟨fun _ => decode?_bytes, ?_, fun _ _ _ _ _ => Report.build_wellNamed⟩
  intro first second hfirst hsecond hne hbytes
  exact hne (eq_of_bytes_eq hfirst hsecond hbytes)

/-- A node with values that look like markup, like an entity, or like the
end of a value, around a value that goes over two lines. -/
def nodeOfMarkupLikeValues (value : String) : Node :=
  ⟨"Type", [("Namespace", "/><Type Namespace=\x22"), ("FullName", value)],
    [⟨"Field", [("Name", "first line\n  </Type>"), ("Type", "\x27<é>\x27")], []⟩]⟩

theorem nodeOfMarkupLikeValues_wellNamed (value : String) :
    WellNamed (nodeOfMarkupLikeValues value) := by
  refine wellNamed_of_names (by decide : IsName "Type")
    (by decide : ∀ name ∈ ["Namespace", "FullName"], IsName name) ?_
  intro child hchild
  obtain rfl := List.mem_singleton.mp hchild
  exact wellNamed_leaf (by decide) (by decide : ∀ name ∈ ["Name", "Type"], IsName name)

theorem markup_like_values_survive :
    WellNamed (nodeOfMarkupLikeValues "&") ∧ WellNamed (nodeOfMarkupLikeValues "&amp;")
      ∧ decode? (bytes (nodeOfMarkupLikeValues "&")) = some (nodeOfMarkupLikeValues "&")
      ∧ nodeOfMarkupLikeValues "&" ≠ nodeOfMarkupLikeValues "&amp;"
      ∧ bytes (nodeOfMarkupLikeValues "&") ≠ bytes (nodeOfMarkupLikeValues "&amp;")
      ∧ ∃ root, ((Report.build .memory (.within none)
            (.ofModules "Game" modulesWithMeetingNames)).runFrom []).1 = .ok root
          ∧ WellNamed root := by
  have hamp := nodeOfMarkupLikeValues_wellNamed "&"
  have hentity := nodeOfMarkupLikeValues_wellNamed "&amp;"
  have hne : nodeOfMarkupLikeValues "&" ≠ nodeOfMarkupLikeValues "&amp;" := by
    simp [nodeOfMarkupLikeValues]
  have hbuilt := congrArg Prod.fst (Report.build_accepted offers_meeting_names
    EventSink.memory_acceptsAll (.within none) [])
  obtain ⟨hread, hbytes, hnamed⟩ := documents_lose_nothing
  exact ⟨hamp, hentity, hread _ hamp, hne, hbytes _ _ hamp hentity hne, _, hbuilt,
    hnamed _ _ _ _ _ hbuilt⟩

end SurfaceReport
