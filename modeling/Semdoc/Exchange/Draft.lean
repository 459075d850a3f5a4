import Semdoc.Exchange.Decode
import Semdoc.Ontology.Draft

/-! # Drafts in exchange

The draft of an ontology is handed over as a list of declarations, each an array that begins with
the kind of the declaration.  Some of them refine the class declared before.
-/

namespace Semdoc.OntologyDraft

/-- What nodes mean in a draft, where there are none. -/
def noReference : Referring := fun _ => { node := .null, type := .any }

/-- Adds a declaration to a draft. -/
def declare (d : OntologyDraft) (j : Json) : Except Failure OntologyDraft := do
  let name := (j.item 1).text
  let item {α : Type} [Decode α] (i : Nat) : α := Decode.item noReference j i
  match (j.item 0).text with
  | "class" => return d.addClass { name }
  | "root_class" => return d.addClass { name, root := true }
  | "transparent_class" => return d.addClass { name, transparent := true }
  | "extends" => return d.reviseLast fun c => { c with superclass := some name }
  | "cardinality" =>
    let cardinality ← RangeSet.parse name
    return d.reviseLast fun c => { c with cardinality }
  | "annotation_class" => return OntologyDraft.addAnnotation d name
  | "tree" => return d.addField { owner := name, holds := .classes (item 2) }
  | "field" =>
    return d.addField
      { owner := name, name := item 2, type := item 3, optional := item 4
        holds := .classes (item 5) }
  | "primitive" => return d.addField { owner := name, holds := .value (item 2) }
  | _ => return d

/-- The draft with a name that some declarations make up. -/
def ofDeclarations (name : String) (declarations : List Json) : Except Failure OntologyDraft :=
  declarations.foldlM declare { name }

end Semdoc.OntologyDraft
