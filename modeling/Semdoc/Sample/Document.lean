import Semdoc.Ontology.Draft

/-! # Documents

Documents to try things out with: a book without content, and one with a chapter in which some text
is emphasized, and closing words behind it.  Their ontologies are those of books and of markup.
-/

/-! ## The ontology of markup

Annotations to try things out with.
-/

namespace Semdoc.Sample

/-- The classes of the ontology of markup. -/
structure Markup where
  ontology : NodeHandle
  emphasis : NodeHandle
  strong : NodeHandle
  comment : NodeHandle
  deriving DecidableEq, Inhabited

namespace Markup

/-- What the ontology of markup declares. -/
def draft : OntologyDraft where
  name := "markup"
  annotations := ["emphasis", "strong", "comment"]

/-- Creates the ontology of markup in a project.  Comments have an author. -/
def create (project : NodeHandle) : Edit Markup := do
  let (ontology, named) ← draft.create project
  let find := OntologyDraft.find named
  let comment ← find "comment"
  let string ← Edit.basicType project "string"
  let _ ← Edit.createClassAttribute comment "author" string none
  return { ontology, emphasis := ← find "emphasis", strong := ← find "strong", comment }

/-- The nodes by name. -/
def named (m : Markup) : NamedNodes :=
  [("ontology", m.ontology), ("emphasis", m.emphasis), ("strong", m.strong),
   ("comment", m.comment)]

end Markup

end Semdoc.Sample

/-! ## The ontology of books

A small ontology to try things out with.  Books hold chapters, chapters sections and these
subsections; paragraphs may stand everywhere, and need not be written, as little as the text in
them.
-/

namespace Semdoc.Sample

/-- The classes of the ontology of books. -/
structure Book where
  ontology : NodeHandle
  book : NodeHandle
  chapter : NodeHandle
  section_ : NodeHandle
  subsection : NodeHandle
  paragraph : NodeHandle
  text : NodeHandle
  deriving DecidableEq, Inhabited

namespace Book

/-- A field for instances of some classes. -/
def holding (owner : String) (children : List String) : FieldDraft :=
  { owner, holds := .classes children }

/-- What the ontology of books declares. -/
def draft : OntologyDraft where
  name := "book"
  classes :=
    [{ name := "book", cardinality := .single 1, root := true },
     { name := "chapter" },
     { name := "section" },
     { name := "subsection" },
     { name := "paragraph", transparent := true },
     { name := "text", transparent := true }]
  fields :=
    [holding "book" ["chapter", "paragraph"],
     holding "chapter" ["section", "paragraph"],
     holding "section" ["subsection", "paragraph"],
     holding "subsection" ["paragraph"],
     holding "paragraph" ["text"],
     { owner := "text", holds := .value "string" }]

/-- Creates the ontology of books in a project.  Chapters and sections may have a title. -/
def create (project : NodeHandle) : Edit Book := do
  let (ontology, named) ← draft.create project
  let find := OntologyDraft.find named
  let chapter ← find "chapter"
  let section_ ← find "section"
  let string ← Edit.basicType project "string"
  let _ ← Edit.createClassAttribute chapter "title" string (some (.string ""))
  let _ ← Edit.createClassAttribute section_ "title" string (some (.string ""))
  return { ontology, book := ← find "book", chapter, section_, subsection := ← find "subsection"
           paragraph := ← find "paragraph", text := ← find "text" }

/-- The nodes by name. -/
def named (b : Book) : NamedNodes :=
  [("ontology", b.ontology), ("book", b.book), ("chapter", b.chapter), ("section", b.section_),
   ("subsection", b.subsection), ("paragraph", b.paragraph), ("text", b.text)]

end Book

end Semdoc.Sample

/-! ## Documents -/

namespace Semdoc.Sample

/-- A document, and what there is in it. -/
structure Document where
  document : NodeHandle
  book : Book
  markup : Markup
  root : NodeHandle
  chapter : NodeHandle
  paragraph : NodeHandle
  /-- The entity with the emphasized text. -/
  text : NodeHandle
  start : NodeHandle
  stop : NodeHandle
  /-- The annotation from `start` to `stop`. -/
  emphasis : NodeHandle
  closing : NodeHandle
  deriving DecidableEq, Inhabited

namespace Document

/-- Creates a paragraph in the tree field of an entity. -/
def createParagraph (book : Book) (parent : NodeHandle) : Edit NodeHandle :=
  Edit.createChild parent book.paragraph none "" ""

/-- Creates an entity with some text in the tree field of a paragraph. -/
def createText (book : Book) (paragraph : NodeHandle) (content : String) : Edit NodeHandle := do
  let h ← Edit.createChild paragraph book.text none "" ""
  let _ ← Edit.createPrimitive h (.string content) ""
  return h

/-- Creates the document with a chapter in a project, and its ontologies. -/
def create (project : NodeHandle) : Edit Document := do
  let book ← Book.create project
  let markup ← Markup.create project
  let document ← Edit.createProjectDocument project "sample"
  Edit.addDocumentOntology document book.ontology
  Edit.addDocumentOntology document markup.ontology
  let root ← Edit.createRoot document book.book none ""
  let title := Value.map [("title", .string "Introduction")]
  let chapter ← Edit.createChild root book.chapter (some title) "" "intro"
  let paragraph ← createParagraph book chapter
  let start ← Edit.createAnchor paragraph ""
  let text ← createText book paragraph "Hello world"
  let stop ← Edit.createAnchor paragraph ""
  let emphasis ← Edit.createAnnotation document markup.emphasis none (some start) (some stop) ""
  let closing ← createParagraph book root
  let _ ← createText book closing "Closing words"
  return { document, book, markup, root, chapter, paragraph, text, start, stop, emphasis, closing }

/-- Creates the book without content in a project, and its ontology. -/
def createEmpty (project : NodeHandle) : Edit (Book × NodeHandle) := do
  let book ← Book.create project
  let document ← Edit.createProjectDocument project "empty"
  Edit.addDocumentOntology document book.ontology
  let _ ← Edit.createRoot document book.book none ""
  return (book, document)

/-- The nodes by name.  Classes are marked, because entities are named like them; the class of
subsections has no name here. -/
def named (d : Document) : NamedNodes :=
  [("ontology", d.book.ontology), ("markup", d.markup.ontology), ("document", d.document),
   ("root", d.root), ("chapter", d.chapter), ("paragraph", d.paragraph), ("text", d.text),
   ("start", d.start), ("end", d.stop), ("emphasis", d.emphasis), ("closing", d.closing),
   ("c_book", d.book.book), ("c_chapter", d.book.chapter), ("c_section", d.book.section_),
   ("c_paragraph", d.book.paragraph), ("c_text", d.book.text), ("c_emphasis", d.markup.emphasis),
   ("c_strong", d.markup.strong), ("c_comment", d.markup.comment)]

end Document

end Semdoc.Sample
