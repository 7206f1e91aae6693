/-
A registry as the union of its documents.

To collect a document is to write: every snippet element with a name and a child element writes its
first child element under its name.  Snippet elements count wherever they stand in the tree, the root
and those inside of other snippets included, and they write in document order.  Of several writes
under one name the last one is kept, whichever documents they come from.

* `fragment?`, `writtenName?` — what an element of a tree writes, and under which name;
* `filterMap_writes?_definitions` — the definitions of a document write what the elements of its tree
  write;
* `get?_collect`, `get?_collect_collect` — what a document writes, and that it writes the same again;
* `Registry.union_of_documents` — what a registry holds after any number of documents, and which
  names they report.
-/
import Transclude.Proofs.Elements
import Transclude.Registry

namespace Transclude

open Markup (Element)

/-! ### Writes -/

/-- What a definition writes under a name. -/
def Definition.writes? (name : String) (d : Definition) : Option Element :=
  if d.name = name then d.fragment else none

namespace Document

/-- What an element of a tree writes under a name: a snippet element of this name its first child
element, if it has one. -/
def fragment? (ns : Namespace) (name : String) (e : Element) : Option Element :=
  if e.name = ns.name ++ ":" ++ "snippet" ∧ firstValue? "name" e.attributes = some name then
    firstElement? e.children
  else none

/-- The name under which an element of a tree writes something. -/
def writtenName? (ns : Namespace) (e : Element) : Option String :=
  if e.name = ns.name ++ ":" ++ "snippet" ∧ (firstElement? e.children).isSome then
    firstValue? "name" e.attributes
  else none

/-- A definition, by the children and attributes of its element. -/
theorem definition?_eq (e : Element) :
    definition? e = (firstValue? "name" e.attributes).map fun name =>
      ⟨name, firstElement? e.children, e.childElements.length⟩ := by
  rw [definition?, attribute?_eq, firstChildElement?_eq]

/-- The definitions of a tree write what its elements write. -/
theorem filterMap_writes?_definitions (ns : Namespace) (root : Element) (name : String) :
    (ofRoot ns root).definitions.filterMap (Definition.writes? name) =
      root.subtrees.filterMap (fragment? ns name) := by
  rw [ofRoot, List.filterMap_filterMap, filterMap_elementsOf]
  refine List.filterMap_congr fun e _ => ?_
  -- an element makes no definition if it has another name, or no name to define
  rw [definition?_eq, fragment?]
  by_cases htag : e.name = ns.name ++ ":" ++ "snippet"
  · cases firstValue? "name" e.attributes with
    | none => simp
    | some own => simp [Definition.writes?, htag]
  · simp [htag]

/-- The names that a document reports are those under which its elements write something. -/
theorem registeredNames_ofRoot (ns : Namespace) (root : Element) :
    (ofRoot ns root).registeredNames = root.subtrees.filterMap (writtenName? ns) := by
  rw [registeredNames, ← List.filterMap_eq_map, List.filterMap_filter, ofRoot,
    List.filterMap_filterMap, filterMap_elementsOf]
  refine List.filterMap_congr fun e _ => ?_
  rw [definition?_eq, writtenName?]
  by_cases htag : e.name = ns.name ++ ":" ++ "snippet"
  · cases firstValue? "name" e.attributes with
    | none => simp
    | some own =>
      cases firstElement? e.children with
      | none => simp [Definition.registers]
      | some fragment => simp [Definition.registers, htag]
  · simp [htag]

/-- Something is written under a name if and only if the name is among those reported. -/
theorem exists_fragment?_iff (ns : Namespace) (root : Element) (name : String) :
    (∃ e ∈ root.subtrees, (fragment? ns name e).isSome) ↔
      name ∈ (ofRoot ns root).registeredNames := by
  rw [registeredNames_ofRoot, List.mem_filterMap]
  refine exists_congr fun e => and_congr_right fun _ => ?_
  by_cases htag : e.name = ns.name ++ ":" ++ "snippet"
  · cases hchild : firstElement? e.children with
    | none => simp [fragment?, writtenName?, hchild]
    | some fragment => simp [fragment?, writtenName?, htag, hchild]
  · simp [fragment?, writtenName?, htag]

end Document

/-! ### Collecting -/

namespace Registry

theorem get?_define (r : Registry) (d : Definition) (name : String) :
    (r.define d).get? name = (d.writes? name).or (r.get? name) := by
  rw [define, Definition.writes?]
  by_cases hname : d.name = name
  · cases d.fragment with
    | none => simp
    | some fragment => simp [get?_register, hname]
  · cases d.fragment with
    | none => simp
    | some fragment => simp [get?_register, hname, Ne.symm hname]

/-- Of several writes under one name the last one is kept. -/
theorem get?_foldl_define (r : Registry) (ds : List Definition) (name : String) :
    (ds.foldl define r).get? name =
      (ds.filterMap (Definition.writes? name)).getLast?.or (r.get? name) := by
  induction ds generalizing r with
  | nil => rfl
  | cons d ds ih =>
    -- the write of `d` comes first, so that any later one replaces it
    have hlast : ((d :: ds).filterMap (Definition.writes? name)).getLast? =
        (ds.filterMap (Definition.writes? name)).getLast?.or (d.writes? name) := by
      rw [← List.singleton_append, List.filterMap_append, List.getLast?_append]
      cases hwrite : d.writes? name with
      | none => simp [hwrite]
      | some fragment => simp [hwrite]
    rw [List.foldl_cons, ih, get?_define, hlast, Option.or_assoc]

theorem get?_collect (r : Registry) (d : Document) (name : String) :
    (r.collect d).get? name =
      (d.definitions.filterMap (Definition.writes? name)).getLast?.or (r.get? name) :=
  get?_foldl_define r d.definitions name

/-- A document that is collected again changes nothing, even if it writes several times under one
name. -/
theorem get?_collect_collect (r : Registry) (d : Document) (name : String) :
    ((r.collect d).collect d).get? name = (r.collect d).get? name := by
  rw [get?_collect, get?_collect, ← Option.or_assoc, Option.or_self]

theorem contains_iff_mem_names (r : Registry) (name : String) :
    r.contains name = true ↔ name ∈ r.names := by
  rw [contains, get?, names, Text.mem_sort, Option.isSome_map, List.find?_isSome, List.mem_map]
  constructor
  · rintro ⟨entry, hmem, hname⟩
    exact ⟨entry, hmem, by simpa using hname⟩
  · rintro ⟨entry, hmem, rfl⟩
    exact ⟨entry, hmem, by simp⟩

/-- The registry with the documents of trees collected into it, one after the other; each tree is
read in a namespace of its own. -/
def collectTrees (r : Registry) (trees : List (Namespace × Element)) : Registry :=
  (trees.map fun t => Document.ofRoot t.1 t.2).foldl collect r

/-- What the elements of trees write under a name, in the order in which they write. -/
def writesOf (trees : List (Namespace × Element)) (name : String) : List Element :=
  trees.flatMap fun t => t.2.subtrees.filterMap (Document.fragment? t.1 name)

theorem get?_collectTrees (r : Registry) (trees : List (Namespace × Element)) (name : String) :
    (r.collectTrees trees).get? name = (writesOf trees name).getLast?.or (r.get? name) := by
  have hdefine : r.collectTrees trees =
      (trees.flatMap fun t => (Document.ofRoot t.1 t.2).definitions).foldl define r := by
    rw [collectTrees, List.foldl_map, List.foldl_flatMap]
    rfl
  rw [hdefine, get?_foldl_define, List.filterMap_flatMap, writesOf]
  simp only [Document.filterMap_writes?_definitions]

/-- A registry is the union of the documents that were collected into it: under a name it holds what
was written last, or what it held before if nothing was written.  The names that a document reports
are those under which it writes, so that a registry that was empty has these names and no others. -/
theorem union_of_documents (r : Registry) (trees : List (Namespace × Element)) :
    (∀ name, (r.collectTrees trees).get? name = (writesOf trees name).getLast?.or (r.get? name)) ∧
    (∀ ns root, (Document.ofRoot ns root).registeredNames =
      root.subtrees.filterMap (Document.writtenName? ns)) ∧
    ∀ name, name ∈ (({} : Registry).collectTrees trees).names ↔
      ∃ t ∈ trees, name ∈ (Document.ofRoot t.1 t.2).registeredNames := by
  refine ⟨get?_collectTrees r trees, Document.registeredNames_ofRoot, fun name => ?_⟩
  have hempty : ({} : Registry).get? name = none := rfl
  have hwritten : writesOf trees name ≠ [] ↔
      ∃ t ∈ trees, ∃ e ∈ t.2.subtrees, (Document.fragment? t.1 name e).isSome := by
    simp [writesOf, Option.isSome_iff_ne_none]
  rw [← contains_iff_mem_names, contains, get?_collectTrees, hempty, Option.or_none,
    List.getLast?_isSome, hwritten]
  simp only [Document.exists_fragment?_iff]

/-- The first tree is a snippet itself, and the fragment that it writes has another snippet in it.
In the second tree the snippet without a child element writes nothing, and the other one writes in
place of what the inner snippet wrote. -/
theorem union_of_documents_of_nested_snippets :
    let cell : Element := ⟨"td", [], [.text "1"]⟩
    let row : Element := ⟨"dht:snippet", [("name", "row")], [.element cell]⟩
    let table : Element := ⟨"table", [], [.text "2", .element row]⟩
    let page : Element := ⟨"dht:snippet", [("id", "p"), ("name", "page")],
      [.text " ", .element table, .element ⟨"hr", [], []⟩]⟩
    let item : Element := ⟨"li", [], [.text "3"]⟩
    let list : Element := ⟨"tpl:all", [],
      [.element ⟨"tpl:snippet", [("name", "page")], [.text "none"]⟩,
        .element ⟨"tpl:snippet", [("name", "row")], [.element item]⟩]⟩
    let trees : List (Namespace × Element) := [(⟨"dht"⟩, page), (⟨"tpl"⟩, list)]
    let r : Registry := ⟨[("old", cell)]⟩
    (r.collectTrees trees).get? "page" = some table ∧
    (r.collectTrees trees).get? "row" = some item ∧
    (r.collectTrees trees).get? "old" = some cell ∧
    (Document.ofRoot ⟨"dht"⟩ page).registeredNames = ["page", "row"] ∧
    (Document.ofRoot ⟨"tpl"⟩ list).registeredNames = ["row"] ∧
    ∀ name, name ∈ (({} : Registry).collectTrees trees).names ↔ name = "page" ∨ name = "row" := by
  intro cell row table page item list trees r
  obtain ⟨hget, hnames, hall⟩ := union_of_documents r trees
  have hpage : (Document.ofRoot ⟨"dht"⟩ page).registeredNames = ["page", "row"] := by
    rw [hnames]
    rfl
  have hlist : (Document.ofRoot ⟨"tpl"⟩ list).registeredNames = ["row"] := by
    rw [hnames]
    rfl
  refine ⟨?_, ?_, ?_, hpage, hlist, fun name => ?_⟩
  · rw [hget]
    rfl
  · rw [hget]
    rfl
  · rw [hget]
    rfl
  · rw [hall]
    simp [trees, hpage, hlist]

end Registry

end Transclude
