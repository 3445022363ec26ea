import ClassDeps.Class.Interning

/-!
# Names of class shapes

Class shapes are over any type of names, so that names can be replaced throughout a shape. A document and the
record that is stored for it differ in their names only, once the document is in normal form.

## Main definitions

* `Constant.map`, `Field.map`, `ClassShape.map`, … — a shape with other names
* `Constant.names`, `Field.names`, `ClassShape.names`, … — the names of a shape in their order
* `ClassShape.normal` — a document without empty names and without a root class as super class

## Main statements

* `ClassShape.map_map` — one replacement after the other, if they agree with a third on the names
* `ClassShape.map_id` — replacing every name by itself
-/

namespace ClassDeps

variable {ν ν' ν'' ω ω' ω'' : Type}

/-! ## Replacing names -/

mutual

/-- The constant with other names. -/
def Constant.map (f : ν → ν') : Constant ν → Constant ν'
  | .int value => .int value
  | .long value => .long value
  | .float bits => .float bits
  | .double bits => .double bits
  | .boolean value => .boolean value
  | .char value => .char value
  | .string value => .string value
  | .type name => .type (f name)
  | .enumerator type constant => .enumerator (f type) (f constant)
  | .annotationUse type elements => .annotationUse (f type) (mapElements f elements)
  | .array items => .array (mapItems f items)

/-- Constants with other names. -/
def mapItems (f : ν → ν') : List (Constant ν) → List (Constant ν')
  | [] => []
  | item :: rest => item.map f :: mapItems f rest

/-- Elements of an annotation with other names. -/
def mapElements (f : ν → ν') : List (ν × Constant ν) → List (ν' × Constant ν')
  | [] => []
  | (name, value) :: rest => (f name, value.map f) :: mapElements f rest

end

/-- The annotation with other names. -/
def AnnotationUse.map (f : ν → ν') (a : AnnotationUse ν) : AnnotationUse ν' :=
  ⟨f a.type, mapElements f a.elements⟩

/-- The field with other names. -/
def Field.map (f : ν → ν') (g : ω → ω') (x : Field ν ω) : Field ν' ω' where
  name := f x.name
  descriptor := f x.descriptor
  flags := x.flags
  genericSignature := g x.genericSignature
  constant := x.constant.map (Constant.map f)
  visible := x.visible.map (AnnotationUse.map f)
  invisible := x.invisible.map (AnnotationUse.map f)

/-- The method with other names. -/
def Method.map (f : ν → ν') (g : ω → ω') (x : Method ν ω) : Method ν' ω' where
  name := f x.name
  descriptor := f x.descriptor
  flags := x.flags
  genericSignature := g x.genericSignature
  exceptions := x.exceptions.map f
  visible := x.visible.map (AnnotationUse.map f)
  invisible := x.invisible.map (AnnotationUse.map f)
  visibleParameters := x.visibleParameters.map (List.map (AnnotationUse.map f))
  invisibleParameters := x.invisibleParameters.map (List.map (AnnotationUse.map f))
  default := x.default.map (Constant.map f)

/-- The member with other names. -/
def Member.map (f : ν → ν') (g : ω → ω') : Member ν ω → Member ν' ω'
  | .field x => .field (x.map f g)
  | .method x => .method (x.map f g)

/-- The declaration with other names. -/
def Declaration.map (f : ν → ν') : Declaration ν → Declaration ν'
  | .type owner => .type (f owner)
  | .field owner name => .field (f owner) (f name)
  | .method owner name descriptor => .method (f owner) (f name) (f descriptor)

/-- The class with other names. -/
def ClassShape.map (f : ν → ν') (g : ω → ω') (c : ClassShape ν ω) : ClassShape ν' ω' where
  name := f c.name
  super := g c.super
  interfaces := c.interfaces.map f
  flags := c.flags
  genericSignature := g c.genericSignature
  sourceFile := c.sourceFile
  path := c.path
  visible := c.visible.map (AnnotationUse.map f)
  invisible := c.invisible.map (AnnotationUse.map f)
  fields := c.fields.map (Field.map f g)
  methods := c.methods.map (Method.map f g)
  references := c.references.map (Declaration.map f)

/-! ## Listing names -/

mutual

/-- The names in a constant. -/
def Constant.names : Constant ν → List ν
  | .type name => [name]
  | .enumerator type constant => [type, constant]
  | .annotationUse type elements => type :: elementsNames elements
  | .array items => itemsNames items
  | _ => []

/-- The names in constants. -/
def itemsNames : List (Constant ν) → List ν
  | [] => []
  | item :: rest => item.names ++ itemsNames rest

/-- The names in elements of an annotation. -/
def elementsNames : List (ν × Constant ν) → List ν
  | [] => []
  | (name, value) :: rest => name :: (value.names ++ elementsNames rest)

end

/-- The names in an annotation. -/
def AnnotationUse.names (a : AnnotationUse ν) : List ν :=
  a.type :: elementsNames a.elements

/-- The names in a list of annotations. -/
def annotationsNames (as : List (AnnotationUse ν)) : List ν :=
  as.flatMap AnnotationUse.names

/-- The names in an optional constant. -/
def optionalNames (c : Option (Constant ν)) : List ν :=
  c.elim [] Constant.names

/-- The names in a field. -/
def Field.names (x : Field ν (Option ν)) : List ν :=
  x.name :: x.descriptor :: (x.genericSignature.toList ++ (optionalNames x.constant ++
    (annotationsNames x.visible ++ annotationsNames x.invisible)))

/-- The names in a method. -/
def Method.names (x : Method ν (Option ν)) : List ν :=
  x.name :: x.descriptor :: (x.genericSignature.toList ++ (x.exceptions ++
    (annotationsNames x.visible ++ (annotationsNames x.invisible ++
      (x.visibleParameters.flatMap annotationsNames ++
        (x.invisibleParameters.flatMap annotationsNames ++ optionalNames x.default))))))

/-- The names in a member. -/
def Member.names : Member ν (Option ν) → List ν
  | .field x => x.names
  | .method x => x.names

/-- The names in a declaration. -/
def Declaration.names : Declaration ν → List ν
  | .type owner => [owner]
  | .field owner name => [owner, name]
  | .method owner name descriptor => [owner, name, descriptor]

/-- The names in a class. -/
def ClassShape.names (c : ClassShape ν (Option ν)) : List ν :=
  c.name :: (c.super.toList ++ (c.interfaces ++ (c.genericSignature.toList ++
    (annotationsNames c.visible ++ (annotationsNames c.invisible ++ (c.fields.flatMap Field.names ++
      (c.methods.flatMap Method.names ++ c.references.flatMap Declaration.names)))))))

/-! ## Normal forms -/

/-- An empty name is absent. -/
def normalName (name : Option String) : Option String :=
  name.filter (· ≠ "")

/-- The field with an empty generic signature left out. -/
def Field.normal (x : Field String (Option String)) : Field String (Option String) :=
  { x with genericSignature := normalName x.genericSignature }

/-- The method with an empty generic signature left out. -/
def Method.normal (x : Method String (Option String)) : Method String (Option String) :=
  { x with genericSignature := normalName x.genericSignature }

/-- The class without empty names that may be absent, and without a root class as super class. -/
def ClassShape.normal (c : ClassDocument) : ClassDocument :=
  { c with
    super := normalName (c.super.filter fun name => !Interning.rootClasses.contains name)
    genericSignature := normalName c.genericSignature
    fields := c.fields.map Field.normal
    methods := c.methods.map Method.normal }

/-! ## Replacing names twice -/

mutual

theorem Constant.map_id : (c : Constant ν) → c.map id = c
  | .int _ | .long _ | .float _ | .double _ | .boolean _ | .char _ | .string _ | .type _
  | .enumerator _ _ => rfl
  | .annotationUse type elements => by rw [Constant.map, mapElements_id elements, id]
  | .array items => by rw [Constant.map, mapItems_id items]

theorem mapItems_id : (items : List (Constant ν)) → mapItems id items = items
  | [] => rfl
  | item :: rest => by rw [mapItems, item.map_id, mapItems_id rest]

theorem mapElements_id : (elements : List (ν × Constant ν)) → mapElements id elements = elements
  | [] => rfl
  | (name, value) :: rest => by rw [mapElements, value.map_id, mapElements_id rest, id]

end

section MapMap

variable {p : ν → Prop} {f : ν → ν'} {f' : ν' → ν''} {f'' : ν → ν''}

mutual

/-- Two replacements amount to a third one, if they do so for the names. -/
theorem Constant.map_map (hf : ∀ name, p name → f' (f name) = f'' name) :
    (c : Constant ν) → (∀ name ∈ c.names, p name) → (c.map f).map f' = c.map f''
  | .int _, _ | .long _, _ | .float _, _ | .double _, _ | .boolean _, _ | .char _, _
  | .string _, _ => rfl
  | .type name, h => by
    simp only [Constant.map, hf name (h name List.mem_cons_self)]
  | .enumerator type constant, h => by
    have htype := hf type (h type List.mem_cons_self)
    have hconstant := hf constant (h constant (List.mem_cons_of_mem type List.mem_cons_self))
    simp only [Constant.map, htype, hconstant]
  | .annotationUse type elements, h => by
    rw [Constant.names, List.forall_mem_cons] at h
    simp only [Constant.map, hf type h.1, mapElements_map hf elements h.2]
  | .array items, h => by
    simp only [Constant.map, mapItems_map hf items h]

theorem mapItems_map (hf : ∀ name, p name → f' (f name) = f'' name) :
    (items : List (Constant ν)) → (∀ name ∈ itemsNames items, p name) →
      mapItems f' (mapItems f items) = mapItems f'' items
  | [], _ => rfl
  | item :: rest, h => by
    rw [itemsNames, List.forall_mem_append] at h
    simp only [mapItems, item.map_map hf h.1, mapItems_map hf rest h.2]

theorem mapElements_map (hf : ∀ name, p name → f' (f name) = f'' name) :
    (elements : List (ν × Constant ν)) → (∀ name ∈ elementsNames elements, p name) →
      mapElements f' (mapElements f elements) = mapElements f'' elements
  | [], _ => rfl
  | (name, value) :: rest, h => by
    rw [elementsNames, List.forall_mem_cons, List.forall_mem_append] at h
    simp only [mapElements, hf name h.1, value.map_map hf h.2.1, mapElements_map hf rest h.2.2]

end

theorem map_map_list {α β γ : Type} {first : α → β} {second : β → γ} {both : α → γ} {xs : List α}
    (h : ∀ x ∈ xs, second (first x) = both x) : (xs.map first).map second = xs.map both := by
  rw [List.map_map]
  exact List.map_congr_left h

theorem forall_mem_of_flatMap {α : Type} {xs : List α} {list : α → List ν}
    (h : ∀ name ∈ xs.flatMap list, p name) {x : α} (hx : x ∈ xs) : ∀ name ∈ list x, p name :=
  fun name hname => h name (List.mem_flatMap.2 ⟨x, hx, hname⟩)

theorem AnnotationUse.map_map (hf : ∀ name, p name → f' (f name) = f'' name) (a : AnnotationUse ν)
    (h : ∀ name ∈ a.names, p name) : (a.map f).map f' = a.map f'' := by
  rw [AnnotationUse.names, List.forall_mem_cons] at h
  simp only [AnnotationUse.map, hf a.type h.1, mapElements_map hf a.elements h.2]

theorem annotations_map_map (hf : ∀ name, p name → f' (f name) = f'' name)
    (as : List (AnnotationUse ν)) (h : ∀ name ∈ annotationsNames as, p name) :
    (as.map (AnnotationUse.map f)).map (AnnotationUse.map f') = as.map (AnnotationUse.map f'') :=
  map_map_list fun a ha => a.map_map hf (forall_mem_of_flatMap h ha)

theorem parameters_map_map (hf : ∀ name, p name → f' (f name) = f'' name)
    (ps : List (List (AnnotationUse ν))) (h : ∀ name ∈ ps.flatMap annotationsNames, p name) :
    (ps.map (List.map (AnnotationUse.map f))).map (List.map (AnnotationUse.map f')) =
      ps.map (List.map (AnnotationUse.map f'')) :=
  map_map_list fun as has => annotations_map_map hf as (forall_mem_of_flatMap h has)

theorem optionalConstant_map_map (hf : ∀ name, p name → f' (f name) = f'' name)
    (c : Option (Constant ν)) (h : ∀ name ∈ optionalNames c, p name) :
    (c.map (Constant.map f)).map (Constant.map f') = c.map (Constant.map f'') := by
  cases c with
  | none => rfl
  | some c => exact congrArg some (c.map_map hf h)

theorem Declaration.map_map (hf : ∀ name, p name → f' (f name) = f'' name) (x : Declaration ν)
    (h : ∀ name ∈ x.names, p name) : (x.map f).map f' = x.map f'' := by
  cases x with
  | type owner =>
    have howner := hf owner (h owner (by simp [Declaration.names]))
    simp only [Declaration.map, howner]
  | field owner name =>
    have howner := hf owner (h owner (by simp [Declaration.names]))
    have hname := hf name (h name (by simp [Declaration.names]))
    simp only [Declaration.map, howner, hname]
  | method owner name descriptor =>
    have howner := hf owner (h owner (by simp [Declaration.names]))
    have hname := hf name (h name (by simp [Declaration.names]))
    have hdescriptor := hf descriptor (h descriptor (by simp [Declaration.names]))
    simp only [Declaration.map, howner, hname, hdescriptor]

variable {g : Option ν → ω'} {g' : ω' → ω''} {g'' : Option ν → ω''}

theorem Field.map_map (hf : ∀ name, p name → f' (f name) = f'' name)
    (hg : ∀ name : Option ν, (∀ n ∈ name.toList, p n) → g' (g name) = g'' name)
    (x : Field ν (Option ν)) (h : ∀ name ∈ x.names, p name) : (x.map f g).map f' g' = x.map f'' g'' := by
  simp only [Field.names, List.forall_mem_cons, List.forall_mem_append] at h
  obtain ⟨hname, hdescriptor, hgeneric, hconstant, hvisible, hinvisible⟩ := h
  simp only [Field.map, hf x.name hname, hf x.descriptor hdescriptor, hg x.genericSignature hgeneric,
    optionalConstant_map_map hf x.constant hconstant, annotations_map_map hf x.visible hvisible,
    annotations_map_map hf x.invisible hinvisible]

theorem Method.map_map (hf : ∀ name, p name → f' (f name) = f'' name)
    (hg : ∀ name : Option ν, (∀ n ∈ name.toList, p n) → g' (g name) = g'' name)
    (x : Method ν (Option ν)) (h : ∀ name ∈ x.names, p name) :
    (x.map f g).map f' g' = x.map f'' g'' := by
  simp only [Method.names, List.forall_mem_cons, List.forall_mem_append] at h
  obtain ⟨hname, hdescriptor, hgeneric, hexceptions, hvisible, hinvisible, hvisibleParameters,
    hinvisibleParameters, hdefault⟩ := h
  have hexceptions' : (x.exceptions.map f).map f' = x.exceptions.map f'' :=
    map_map_list fun name hmem => hf name (hexceptions name hmem)
  simp only [Method.map, hf x.name hname, hf x.descriptor hdescriptor, hg x.genericSignature hgeneric,
    hexceptions', annotations_map_map hf x.visible hvisible,
    annotations_map_map hf x.invisible hinvisible,
    parameters_map_map hf x.visibleParameters hvisibleParameters,
    parameters_map_map hf x.invisibleParameters hinvisibleParameters,
    optionalConstant_map_map hf x.default hdefault]

theorem Member.map_map (hf : ∀ name, p name → f' (f name) = f'' name)
    (hg : ∀ name : Option ν, (∀ n ∈ name.toList, p n) → g' (g name) = g'' name)
    (x : Member ν (Option ν)) (h : ∀ name ∈ x.names, p name) :
    (x.map f g).map f' g' = x.map f'' g'' := by
  cases x with
  | field x => exact congrArg Member.field (x.map_map hf hg h)
  | method x => exact congrArg Member.method (x.map_map hf hg h)

theorem ClassShape.map_map (hf : ∀ name, p name → f' (f name) = f'' name)
    (hg : ∀ name : Option ν, (∀ n ∈ name.toList, p n) → g' (g name) = g'' name)
    (c : ClassShape ν (Option ν)) (h : ∀ name ∈ c.names, p name) :
    (c.map f g).map f' g' = c.map f'' g'' := by
  -- The names of a class are those of its parts one after the other, so each part has its share of `h`.
  simp only [ClassShape.names, List.forall_mem_cons, List.forall_mem_append] at h
  obtain ⟨hname, hsuper, hinterfaces, hgeneric, hvisible, hinvisible, hfields, hmethods,
    hreferences⟩ := h
  have hinterfaces' : (c.interfaces.map f).map f' = c.interfaces.map f'' :=
    map_map_list fun name hmem => hf name (hinterfaces name hmem)
  have hfields' : (c.fields.map (Field.map f g)).map (Field.map f' g') = c.fields.map (Field.map f'' g'') :=
    map_map_list fun x hx => x.map_map hf hg (forall_mem_of_flatMap hfields hx)
  have hmethods' :
      (c.methods.map (Method.map f g)).map (Method.map f' g') = c.methods.map (Method.map f'' g'') :=
    map_map_list fun x hx => x.map_map hf hg (forall_mem_of_flatMap hmethods hx)
  have hreferences' :
      (c.references.map (Declaration.map f)).map (Declaration.map f') =
        c.references.map (Declaration.map f'') :=
    map_map_list fun x hx => x.map_map hf (forall_mem_of_flatMap hreferences hx)
  simp only [ClassShape.map, hf c.name hname, hg c.super hsuper, hg c.genericSignature hgeneric,
    hinterfaces', annotations_map_map hf c.visible hvisible,
    annotations_map_map hf c.invisible hinvisible, hfields', hmethods', hreferences']

end MapMap

theorem AnnotationUse.map_id : AnnotationUse.map (id : ν → ν) = id := by
  funext a
  simp only [AnnotationUse.map, mapElements_id, id]

theorem optionalConstant_map_id (c : Option (Constant ν)) : c.map (Constant.map id) = c := by
  cases c with
  | none => rfl
  | some c => exact congrArg some c.map_id

theorem Declaration.map_id : Declaration.map (id : ν → ν) = id := by
  funext x
  cases x <;> rfl

theorem Field.map_id : Field.map (id : ν → ν) (id : ω → ω) = id := by
  funext x
  simp only [Field.map, AnnotationUse.map_id, optionalConstant_map_id, List.map_id, id]

theorem Method.map_id : Method.map (id : ν → ν) (id : ω → ω) = id := by
  funext x
  simp only [Method.map, AnnotationUse.map_id, optionalConstant_map_id, List.map_id, List.map_id_fun, id]

theorem Member.map_id (x : Member ν ω) : x.map id id = x := by
  cases x with
  | field x => rw [Member.map, Field.map_id, id]
  | method x => rw [Member.map, Method.map_id, id]

theorem ClassShape.map_id (c : ClassShape ν ω) : c.map id id = c := by
  simp only [ClassShape.map, AnnotationUse.map_id, Declaration.map_id, Field.map_id, Method.map_id,
    List.map_id, id]

end ClassDeps
