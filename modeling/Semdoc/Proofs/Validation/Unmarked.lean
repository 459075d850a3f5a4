import Semdoc.Proofs.Store.Views
import Semdoc.Validation

/-!
# Checks do not look at marks

Every question that a check asks has the same answer in a store from which all marks have been
removed, and so has every check, with the same reports.
-/

namespace Semdoc

namespace Store

/-- The store without any mark. -/
def unmarked (s : Store) : Store :=
  { s with cells := s.cells.map fun c => { c with node := c.node.map Node.unmarked } }


variable (s : Store)

@[simp] lemma get?_unmarked (h : NodeHandle) : s.unmarked.get? h = (s.get? h).map Node.unmarked := by
  unfold get? unmarked
  split
  · rfl
  · next i _ =>
    simp only [Array.getElem?_map]
    cases s.cells[i]? with
    | none => rfl
    | some c =>
      simp only [Option.map_some, Option.bind_some]
      split <;> rfl

lemma map_get?_unmarked {β : Type} (g : Node → β) (hg : ∀ n, g n.unmarked = g n)
    (h : NodeHandle) : (s.unmarked.get? h).map g = (s.get? h).map g := by
  rw [get?_unmarked, Option.map_map]
  congr 1
  funext n
  exact hg n

@[simp] lemma content?_unmarked : s.unmarked.content? = s.content? :=
  funext (s.map_get?_unmarked _ fun _ => rfl)

@[simp] lemma name_unmarked : s.unmarked.name = s.name := by
  funext h
  rw [name, s.map_get?_unmarked _ fun _ => rfl, name]

@[simp] lemma location_unmarked : s.unmarked.location = s.location := by
  funext h
  rw [location, s.map_get?_unmarked _ fun _ => rfl, location]

@[simp] lemma tag_unmarked : s.unmarked.tag = s.tag := by
  funext h
  rw [tag, s.map_get?_unmarked _ fun _ => rfl, tag]

@[simp] lemma isA_unmarked : s.unmarked.isA = s.isA := by
  funext h type
  rw [isA, s.map_get?_unmarked _ fun _ => rfl, isA]

@[simp] lemma listed_unmarked : s.unmarked.listed = s.listed := by
  funext h slot
  rw [listed, s.map_get?_unmarked _ fun _ => rfl, listed]

@[simp] lemma contains_unmarked : s.unmarked.contains = s.contains := by
  funext h
  rw [contains, get?_unmarked, Option.isSome_map, contains]

@[simp] lemma home?_unmarked : s.unmarked.home? = s.home? := by
  funext h
  rw [home?, get?_unmarked, home?, Option.bind_map]
  rfl

@[simp] lemma parent?_unmarked : s.unmarked.parent? = s.parent? := by
  funext h
  rw [parent?, get?_unmarked, parent?, Option.bind_map]
  rfl

@[simp] lemma bound_unmarked : s.unmarked.bound = s.bound := by
  simp [bound, unmarked]

@[simp] lemma extent_unmarked : s.unmarked.extent = s.extent := by
  simp only [extent, unmarked, Array.foldl_map, Option.map_map]
  rfl

@[simp] lemma chainUp_unmarked : s.unmarked.chainUp = s.chainUp := by
  funext fuel
  induction fuel with
  | zero => rfl
  | succ fuel ih =>
    funext o
    cases o with
    | none => rfl
    | some h => rw [chainUp, ih, parent?_unmarked, chainUp]

@[simp] lemma pathText_unmarked : s.unmarked.pathText = s.pathText := by
  funext h
  simp [pathText, path, ancestors]

/-! ## Classes -/

@[simp] lemma class?_unmarked : s.unmarked.class? = s.class? := by
  funext h
  simp [class?]

@[simp] lemma descriptorTokens?_unmarked : s.unmarked.descriptorTokens? = s.descriptorTokens? := by
  funext h
  simp [descriptorTokens?]

@[simp] lemma field?_unmarked : s.unmarked.field? = s.field? := by
  funext h
  simp [field?]

@[simp] lemma isTreeField_unmarked : s.unmarked.isTreeField = s.isTreeField := by
  funext h
  simp [isTreeField, fieldType?]

@[simp] lemma attributesOf?_unmarked : s.unmarked.attributesOf? = s.attributesOf? := by
  funext h
  simp only [attributesOf?, descriptorTokens?_unmarked, get?_unmarked, Option.bind_map]
  rfl

@[simp] lemma ownFields_unmarked : s.unmarked.ownFields = s.ownFields := by
  funext h
  simp [ownFields]

@[simp] lemma declaredChildren_unmarked : s.unmarked.declaredChildren = s.declaredChildren := by
  funext h
  simp [declaredChildren]

@[simp] lemma superclass?_unmarked : s.unmarked.superclass? = s.superclass? := by
  funext h
  simp [superclass?]

@[simp] lemma subclasses_unmarked : s.unmarked.subclasses = s.subclasses := by
  funext h
  simp [subclasses]

@[simp] lemma live?_unmarked : s.unmarked.live? = s.live? := by
  funext h
  simp [live?]

@[simp] lemma classLine_unmarked : s.unmarked.classLine = s.classLine := by
  funext h
  simp [classLine]

@[simp] lemma hasInheritanceCycle_unmarked :
    s.unmarked.hasInheritanceCycle = s.hasInheritanceCycle := by
  funext h
  simp [hasInheritanceCycle]

@[simp] lemma isSubclassOf_unmarked : s.unmarked.isSubclassOf = s.isSubclassOf := by
  funext h other
  simp [isSubclassOf]

@[simp] lemma visibleFields_unmarked : s.unmarked.visibleFields = s.visibleFields := by
  funext seen cs
  induction cs generalizing seen with
  | nil => rfl
  | cons c r ih => simp [visibleFields, ih]

@[simp] lemma effectiveFields_unmarked : s.unmarked.effectiveFields = s.effectiveFields := by
  funext h
  simp [effectiveFields]

@[simp] lemma permittedChildren_unmarked :
    s.unmarked.permittedChildren = s.permittedChildren := by
  funext h
  simp [permittedChildren]

/-! ## Types -/

@[simp] lemma shape?_unmarked : s.unmarked.shape? = s.shape? := by
  funext h
  simp [shape?]

@[simp] lemma attribute?_unmarked : s.unmarked.attribute? = s.attribute? := by
  funext h
  simp [attribute?]

@[simp] lemma structParent?_unmarked : s.unmarked.structParent? = s.structParent? := by
  funext h
  simp [structParent?]

@[simp] lemma struct?_unmarked : s.unmarked.struct? = s.struct? := by
  funext h
  simp [struct?]

@[simp] lemma structLine_unmarked : s.unmarked.structLine = s.structLine := by
  funext h
  simp [structLine]

@[simp] lemma structHasCycle_unmarked : s.unmarked.structHasCycle = s.structHasCycle := by
  funext h
  simp [structHasCycle]

@[simp] lemma structAttributes_unmarked : s.unmarked.structAttributes = s.structAttributes := by
  funext h
  simp [structAttributes]

@[simp] lemma structAttributeIndex?_unmarked :
    s.unmarked.structAttributeIndex? = s.structAttributeIndex? := by
  funext h name
  simp [structAttributeIndex?]

@[simp] lemma defaultWithin_unmarked : s.unmarked.defaultWithin = s.defaultWithin := by
  funext depth
  induction depth with
  | zero => rfl
  | succ depth ih =>
    funext h
    simp only [defaultWithin, shape?_unmarked, structAttributes_unmarked, attribute?_unmarked, ih]

@[simp] lemma defaultOf_unmarked : s.unmarked.defaultOf = s.defaultOf := by
  funext h
  simp [defaultOf]

@[simp] lemma attributeDefault_unmarked : s.unmarked.attributeDefault = s.attributeDefault := by
  funext h
  simp [attributeDefault]

@[simp] lemma prepareAttribute_unmarked : s.unmarked.prepareAttribute = s.prepareAttribute := by
  funext around a given
  simp [prepareAttribute]

@[simp] lemma prepareAttributes_unmarked : s.unmarked.prepareAttributes = s.prepareAttributes := by
  funext around given
  induction given with
  | nil => rfl
  | cons g r ih => simp [prepareAttributes, ih]

@[simp] lemma assignByName_unmarked : s.unmarked.assignByName = s.assignByName := by
  funext attributes given
  simp [assignByName]

@[simp] lemma prepareStruct_unmarked : s.unmarked.prepareStruct = s.prepareStruct := by
  funext around assigned
  simp [prepareStruct]

@[simp] lemma prepareAs_unmarked : s.unmarked.prepareAs = s.prepareAs := by
  funext v items entries around type
  simp [prepareAs]

mutual

lemma preparation_unmarked : (v : Value) → s.unmarked.preparation v = s.preparation v
  | .array items => by
    rw [preparation, prepareAs_unmarked, itemPreparations_unmarked items, preparation]
  | .map entries => by
    rw [preparation, prepareAs_unmarked, entryPreparations_unmarked entries, preparation]
  | .null | .bool _ | .int _ | .double _ | .string _ | .magic _ | .object _
  | .function _ => by
    simp [preparation]

lemma itemPreparations_unmarked :
    (vs : List Value) → s.unmarked.itemPreparations vs = s.itemPreparations vs
  | [] => by simp [itemPreparations]
  | v :: r => by
    rw [itemPreparations, preparation_unmarked v, itemPreparations_unmarked r, itemPreparations]

lemma entryPreparations_unmarked :
    (es : List (String × Value)) → s.unmarked.entryPreparations es = s.entryPreparations es
  | [] => by simp [entryPreparations]
  | (k, v) :: r => by
    rw [entryPreparations, preparation_unmarked v, entryPreparations_unmarked r, entryPreparations]

end

@[simp] lemma prepare_unmarked : s.unmarked.prepare = s.prepare := by
  funext type v
  rw [prepare, preparation_unmarked, prepare]

/-! ## Documents -/

@[simp] lemma entity?_unmarked : s.unmarked.entity? = s.entity? := by
  funext h
  simp [entity?]

@[simp] lemma annotation?_unmarked : s.unmarked.annotation? = s.annotation? := by
  funext h
  simp [annotation?]

@[simp] lemma primitive?_unmarked : s.unmarked.primitive? = s.primitive? := by
  funext h
  simp [primitive?]

@[simp] lemma documentRoot?_unmarked : s.unmarked.documentRoot? = s.documentRoot? := by
  funext h
  unfold documentRoot?
  rw [get?_unmarked]
  cases s.get? h with
  | none => rfl
  | some n =>
    obtain ⟨uid, name, content, home, location, single, rosters, listeners, validated⟩ := n
    cases content <;> rfl

@[simp] lemma fieldContent_unmarked : s.unmarked.fieldContent = s.fieldContent := by
  funext h number
  simp [fieldContent]

@[simp] lemma placeAbove_unmarked : s.unmarked.placeAbove = s.placeAbove := by
  funext fuel
  induction fuel with
  | zero => rfl
  | succ fuel ih =>
    funext h steps
    simp only [placeAbove, home?_unmarked, fieldContent_unmarked, ih]

@[simp] lemma place?_unmarked : s.unmarked.place? = s.place? := by
  funext h
  simp [place?]

@[simp] lemma documentContains_unmarked : s.unmarked.documentContains = s.documentContains := by
  funext document h
  simp [documentContains]

@[simp] lemma compareInDocument_unmarked : s.unmarked.compareInDocument = s.compareInDocument := by
  funext a b
  simp [compareInDocument]

@[simp] lemma hasContentBeyond_unmarked : s.unmarked.hasContentBeyond = s.hasContentBeyond := by
  funext h count
  rw [hasContentBeyond, s.map_get?_unmarked _ fun _ => rfl, hasContentBeyond]

/-! ## Checks -/

@[simp] lemma checkName_unmarked : s.unmarked.checkName = s.checkName := by
  funext h
  simp [checkName]

@[simp] lemma checkUniqueNames_unmarked : s.unmarked.checkUniqueNames = s.checkUniqueNames := by
  funext what hs
  simp [checkUniqueNames]

@[simp] lemma checkParent_unmarked : s.unmarked.checkParent = s.checkParent := by
  funext type h
  simp [checkParent]

@[simp] lemma checkDescriptor_unmarked : s.unmarked.checkDescriptor = s.checkDescriptor := by
  funext h tokens
  simp [checkDescriptor, checkFieldOrder]

@[simp] lemma checkSubclasses_unmarked : s.unmarked.checkSubclasses = s.checkSubclasses := by
  funext h
  simp [checkSubclasses]

@[simp] lemma checkField_unmarked : s.unmarked.checkField = s.checkField := by
  funext h f
  simp [checkField, checkFieldName, checkFieldContent]

@[simp] lemma checkType_unmarked : s.unmarked.checkType = s.checkType := by
  funext h shape
  simp [checkType]

@[simp] lemma checkAttribute_unmarked : s.unmarked.checkAttribute = s.checkAttribute := by
  funext h a
  simp [checkAttribute]

@[simp] lemma checkDocument_unmarked : s.unmarked.checkDocument = s.checkDocument := by
  funext h
  simp [checkDocument]

@[simp] lemma checkValue_unmarked : s.unmarked.checkValue = s.checkValue := by
  funext type v
  simp [checkValue]

@[simp] lemma checkPrimitiveField_unmarked :
    s.unmarked.checkPrimitiveField = s.checkPrimitiveField := by
  funext l name optional type content
  simp [checkPrimitiveField]

@[simp] lemma checkMember_unmarked : s.unmarked.checkMember = s.checkMember := by
  funext name descriptor declared child
  simp [checkMember]

@[simp] lemma checkCount_unmarked : s.unmarked.checkCount = s.checkCount := by
  funext l name content descriptor
  simp [checkCount, countOf]

@[simp] lemma checkEntityField_unmarked : s.unmarked.checkEntityField = s.checkEntityField := by
  funext h descriptor number field
  simp [checkEntityField]

@[simp] lemma checkEntity_unmarked : s.unmarked.checkEntity = s.checkEntity := by
  funext h e
  simp [checkEntity]

@[simp] lemma checkStructuredEntity_unmarked :
    s.unmarked.checkStructuredEntity = s.checkStructuredEntity := by
  funext h e
  simp [checkStructuredEntity]

@[simp] lemma checkAnnotation_unmarked : s.unmarked.checkAnnotation = s.checkAnnotation := by
  funext h a
  simp [checkEndpoints, checkAnnotation]

@[simp] lemma checkAnchor_unmarked : s.unmarked.checkAnchor = s.checkAnchor := by
  funext h mark
  simp [checkAnchor]

/-- No check of the content of a node looks at marks. -/
lemma checkContent_unmarked (h : NodeHandle) (c : Content) :
    s.unmarked.checkContent h c = s.checkContent h c := by
  cases c <;> simp [checkContent, checkProject, checkTypesystem, checkOntology, checkClass]

/-- No check of a node looks at marks. -/
theorem checkNode_unmarked (h : NodeHandle) (n : Node) :
    s.unmarked.checkNode h n.unmarked = s.checkNode h n := by
  have hr : s.unmarked.checkReferences h n.unmarked = s.checkReferences h n := by
    simp only [checkReferences, contains_unmarked, pathText_unmarked]
    rfl
  rw [checkNode, hr, checkNode]
  congr 3
  exact s.checkContent_unmarked h n.content

/-- What a node needs does not depend on marks. -/
theorem neededBy_unmarked (h : NodeHandle) (n : Node) :
    s.unmarked.neededBy h n.unmarked = s.neededBy h n := by
  have hr : s.unmarked.restsOn h n.unmarked = s.restsOn h n := by
    simp only [restsOn, hasInheritanceCycle_unmarked]
    rfl
  rw [neededBy, hr, contains_unmarked, neededBy]
  rfl

end Store

end Semdoc
