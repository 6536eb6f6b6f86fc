/-
  ClientGen.Proofs.InPlace

  Lifted interfaces and objects written in place.  The interfaces that are declared for an
  object are those of a tree, in which an interface hangs below the property that it was
  lifted out of.  Put back into the types of these properties, their members make up the
  object type that would have been written in place (`interface_in_place`).
-/
import ClientGen.Proofs.Intersection
import ClientGen.Proofs.Lifting

namespace ClientGen

open TypeScript

/-! ## Trees of interfaces -/

mutual

/-- An interface, with those that were lifted out of its properties. -/
inductive InterfaceTree where
  | node (name : String) (docs parents : List String) (properties : PropertyTrees)
      (indexType : Option String)

/-- The properties of an interface in order, each with the interface that was lifted out of it,
    if one was. -/
inductive PropertyTrees where
  | nil
  | kept (property : PropertyDecl) (rest : PropertyTrees)
  | lifted (property : PropertyDecl) (interface : InterfaceTree) (rest : PropertyTrees)

end

def InterfaceTree.name : InterfaceTree → String
  | .node name _ _ _ _ => name

/-- The properties as they are declared. -/
def PropertyTrees.decls : PropertyTrees → List PropertyDecl
  | .nil => []
  | .kept property rest => property :: rest.decls
  | .lifted property _ rest => property :: rest.decls

mutual

/-- The interfaces of a tree in the order in which they are declared, the one at the root last. -/
def InterfaceTree.interfaces : InterfaceTree → List InterfaceDecl
  | .node name docs parents properties indexType =>
    properties.interfaces ++ [{ name, docs, parents, properties := properties.decls, indexType }]

/-- The interfaces that were lifted out of properties. -/
def PropertyTrees.interfaces : PropertyTrees → List InterfaceDecl
  | .nil => []
  | .kept _ rest => rest.interfaces
  | .lifted _ interface rest => interface.interfaces ++ rest.interfaces

end

/-- An object type with these members. -/
def bracedType (members : List String) : String := "\x7b " ++ "; ".intercalate members ++ " \x7d"

/-- A type with a text in place of the name that it begins with. -/
def replaceStart (name text type : String) : String :=
  ((Text.afterStart? name type).map (text ++ ·)).getD type

mutual

/-- The members of an interface: the signatures of its properties, and that of its index. -/
def InterfaceTree.members : InterfaceTree → List String
  | .node _ _ _ properties indexType =>
    properties.signatures ++ (indexType.map ("[key: string]: " ++ ·)).toList

/-- The signatures of properties.  In the type of a property, the name of the interface that was
    lifted out of it makes room for the members of this interface. -/
def PropertyTrees.signatures : PropertyTrees → List String
  | .nil => []
  | .kept property rest => property.signature :: rest.signatures
  | .lifted property interface rest =>
    let type := replaceStart interface.name (bracedType interface.members) property.typeExpr
    { property with typeExpr := type }.signature :: rest.signatures

end

mutual

/-- Whether a tree has the interface of an object, and below it those of the properties that are
    lifted. -/
inductive InterfaceTree.LiftedFrom : ModelName → Schema → InterfaceTree → Prop
  | node {model : ModelName} {s : Schema} {docs parents : List String} {trees : PropertyTrees}
      {indexType : Option String} (h : trees.LiftedFrom model (s.properties?.getD [])) :
      InterfaceTree.LiftedFrom model s (.node model.name docs parents trees indexType)

/-- Whether just those properties have interfaces below them that are lifted.  Their types are the
    names of these interfaces, perhaps with null. -/
inductive PropertyTrees.LiftedFrom : ModelName → List (String × Schema) → PropertyTrees → Prop
  | nil {model : ModelName} : PropertyTrees.LiftedFrom model [] .nil
  | kept {model : ModelName} {name : String} {s : Schema} {properties : List (String × Schema)}
      {property : PropertyDecl} {rest : PropertyTrees} (hs : s.isLiftable = false)
      (hname : property.name = name) (hrest : rest.LiftedFrom model properties) :
      PropertyTrees.LiftedFrom model ((name, s) :: properties) (.kept property rest)
  | lifted {model : ModelName} {name : String} {s : Schema} {properties : List (String × Schema)}
      {property : PropertyDecl} {interface : InterfaceTree} {rest : PropertyTrees}
      (hs : s.isLiftable = true) (hname : property.name = name)
      (htype : property.typeExpr = admitNull s interface.name)
      (hinterface : interface.LiftedFrom (model.lifted name) s)
      (hrest : rest.LiftedFrom model properties) :
      PropertyTrees.LiftedFrom model ((name, s) :: properties) (.lifted property interface rest)

end

theorem InterfaceTree.LiftedFrom.name_eq {tree : InterfaceTree} {model : ModelName} {s : Schema}
    (h : tree.LiftedFrom model s) : tree.name = model.name := by
  cases h
  rfl

/-! ## Names in types -/

/-- Whether a text looks as the names of models do: letters and digits, no lower-case letter
    first. -/
structure IsTypeName (name : String) : Prop where
  alphanum : ∀ c ∈ name.toList, c.isAlphanum = true
  head : name.toList.head?.any Char.isLower = false

theorem isTypeName_ofKey (key : String) : IsTypeName (ModelName.ofKey key).name :=
  ⟨ModelName.isAlphanum_of_mem_name_ofKey, ModelName.any_isLower_head?_name_ofKey key⟩

theorem IsTypeName.lifted {model : ModelName} (h : IsTypeName model.name) (property : String) :
    IsTypeName (model.lifted property).name := by
  have htext : (model.lifted property).name.toList
      = model.name.toList ++ (Text.pascalCase property).toList := String.toList_append
  constructor
  · intro c hc
    rw [htext] at hc
    rcases List.mem_append.1 hc with hc | hc
    · exact h.alphanum c hc
    · exact Text.isAlphanum_of_mem_pascalCase c hc
  · rw [htext]
    cases hname : model.name.toList with
    | nil =>
      rw [List.nil_append, Text.head?_pascalCase, Option.any_map]
      cases Text.lead? property with
      | none => rfl
      | some c => exact Char.isLower_toUpper_eq_false c
    | cons first rest =>
      have hhead := h.head
      rw [hname] at hhead
      exact hhead

/-- A name never admits null by itself. -/
theorem IsTypeName.withNull_eq {name : String} (h : IsTypeName name) :
    withNull name = name ++ " | null" := by
  unfold withNull
  rw [if_neg]
  rintro (rfl | rfl | hends)
  · exact absurd h.head (by decide)
  · exact absurd h.head (by decide)
  · rw [Text.endsWith, List.isSuffixOf_iff_suffix] at hends
    exact absurd (h.alphanum '|' (hends.subset (by decide))) (by decide)

theorem withNull_bracedType (members : List String) :
    withNull (bracedType members) = bracedType members ++ " | null" := by
  have hlast : (bracedType members).toList.getLast? = some '}' := by
    rw [bracedType, toList_braces, ← List.cons_append, List.getLast?_concat]
  exact withNull_of_getLast? hlast (by decide)

/-- Null stays when a name makes room for an object type. -/
theorem replaceStart_admitNull {name : String} (h : IsTypeName name) (s : Schema)
    (members : List String) :
    replaceStart name (bracedType members) (admitNull s name) = admitNull s (bracedType members) := by
  unfold replaceStart admitNull
  split
  · rw [h.withNull_eq, Text.afterStart?_append, withNull_bracedType]
    rfl
  · have hself : Text.afterStart? name name = some "" := by
      rw [Text.afterStart?_eq_some_iff, String.append_empty]
    rw [hself, Option.map_some, Option.getD_some, String.append_empty]

/-! ## Objects in both forms -/

section Objects

variable {d : Document} {key referrer : String} {levels levels' : Nat} {model : ModelName} {s : Schema}

theorem exists_properties_of_isLiftable (h : s.isLiftable = true) :
    ∃ properties, s.kind = .object properties ∧ properties ≠ [] := by
  unfold Schema.isLiftable at h
  split at h
  · next properties hkind => exact ⟨properties, hkind, by simpa using h⟩
  · cases h

theorem objectType_of_ne_nil {members : List PropertyDecl} {index : Option String}
    (h : members ≠ [] ∨ index ≠ none) :
    objectType members index = bracedType (members.map (·.signature)
      ++ (index.map ("[key: string]: " ++ ·)).toList) := by
  have hne : (members.map (·.signature)
      ++ (index.map ("[key: string]: " ++ ·)).toList).isEmpty = false := by
    rw [List.isEmpty_eq_false_iff, ne_eq, List.append_eq_nil_iff, not_and_or]
    exact h.imp (fun h => by simpa using h) fun h => by simpa using h
  unfold objectType
  dsimp only
  rw [hne, if_neg Bool.false_ne_true, bracedType]

/-- What the type of an object is made of when it is written in place. -/
theorem exists_members_of_typeWithin {properties : List (String × Schema)} {type : String}
    (hkind : s.kind = .object properties)
    (h : (typeWithin d referrer (levels + 1) s).result = .ok type) :
    ∃ members index,
      (properties.mapM (memberType (typeWithin d referrer levels) s.required)).result = .ok members ∧
      (indexType (typeWithin d referrer levels) s).result = .ok index ∧
      type = admitNull s (objectType members index) := by
  obtain ⟨bare, hbare, rfl⟩ := Traced.result_map_eq_ok_iff.1 h
  unfold typeByKind at hbare
  rw [hkind] at hbare
  obtain ⟨members, hmembers, hbare⟩ := Traced.result_bind_eq_ok_iff.1 hbare
  obtain ⟨index, hindex, hbare⟩ := Traced.result_bind_eq_ok_iff.1 hbare
  cases hbare
  exact ⟨members, index, hmembers, hindex, rfl⟩

/-- The values under further keys have one type, however it was made. -/
theorem indexType_unique {referrer' : String} {index index' : Option String}
    (h : (indexType (typeWithin d referrer levels) s).result = .ok index)
    (h' : (indexType (typeWithin d referrer' levels') s).result = .ok index') : index = index' := by
  have hmax : (indexType (typeWithin d referrer (max levels levels')) s).result = .ok index :=
    indexType_extends (typeWithin_extends (Nat.le_max_left ..)) s index h
  have hmax' : (indexType (typeWithin d referrer (max levels levels')) s).result = .ok index' :=
    indexType_extends (typeWithin_extends (Nat.le_max_right ..)) s index' h'
  exact Except.ok.inj (hmax.symm.trans hmax')

theorem signature_congr {p q : PropertyDecl} (hname : p.name = q.name)
    (hoptional : p.optional = q.optional) (htype : p.typeExpr = q.typeExpr) :
    p.signature = q.signature := by
  rw [PropertyDecl.signature, PropertyDecl.signature, hname, hoptional, htype]

/-- One property after the other.  `lift` makes trees of the objects that are lifted, whose members
    are those of the types that these objects have in place. -/
theorem exists_propertyTrees {lift : ModelName → Schema → Declaring (List InterfaceDecl)}
    (hlift : ∀ target inner decls type, IsTypeName target.name → inner.isLiftable = true →
      (lift target inner).result = .ok decls →
      (typeWithin d referrer levels inner).result = .ok type →
      ∃ tree : InterfaceTree, tree.interfaces = decls ∧ tree.LiftedFrom target inner ∧
        type = admitNull inner (bracedType tree.members))
    (hmodel : IsTypeName model.name) {required : List String} {properties : List (String × Schema)}
    {results : List (List InterfaceDecl × String)} {members : List PropertyDecl}
    (hresults : List.Forall₂ (fun property result =>
      (propertyType d key model lift property).result = .ok result) properties results)
    (hmembers : List.Forall₂ (fun property member =>
      (memberType (typeWithin d referrer levels) required property).result = .ok member)
      properties members) :
    ∃ trees : PropertyTrees, trees.interfaces = results.flatMap (·.1) ∧
      trees.decls = properties.zipWith (propertyDecl required) (results.map (·.2)) ∧
      trees.LiftedFrom model properties ∧ trees.signatures = members.map (·.signature) := by
  induction hresults generalizing members with
  | nil =>
    cases hmembers
    exact ⟨.nil, rfl, rfl, .nil, rfl⟩
  | @cons property result properties results hresult _ ih =>
    obtain ⟨name, inner⟩ := property
    obtain ⟨decls, type⟩ := result
    cases hmembers with
    | @cons _ member _ members hmember hmembers =>
      obtain ⟨hname, hoptional, htyped⟩ := memberForm_of_memberType hmember
      obtain ⟨trees, hinterfaces, hdecls, hlifted, hsignatures⟩ := ih hmembers
      rcases propertyType_cases hresult with ⟨hs, hlift', rfl⟩ | ⟨hs, rfl, htype⟩
      · -- the object has become an interface of its own
        obtain ⟨tree, rfl, hfrom, hbraced⟩ :=
          hlift _ inner decls _ (hmodel.lifted name) hs hlift' htyped
        have htree : tree.name = (model.lifted name).name := hfrom.name_eq
        rw [← htree]
        refine ⟨.lifted (propertyDecl required (name, inner) (admitNull inner tree.name)) tree trees,
          ?_, ?_, .lifted hs rfl rfl hfrom hlifted, ?_⟩
        · rw [PropertyTrees.interfaces, hinterfaces, List.flatMap_cons]
        · rw [PropertyTrees.decls, hdecls]
          rfl
        · have hreplaced := replaceStart_admitNull (htree ▸ hmodel.lifted name) inner tree.members
          rw [PropertyTrees.signatures, hsignatures, List.map_cons]
          congr 1
          exact signature_congr hname.symm hoptional.symm (hreplaced.trans hbraced.symm)
      · -- the type is the same in both places
        have hsame : type = member.typeExpr := TypedWithin.unique htype htyped
        refine ⟨.kept (propertyDecl required (name, inner) type) trees, ?_, ?_,
          .kept hs rfl hlifted, ?_⟩
        · rw [PropertyTrees.interfaces, hinterfaces]
          rfl
        · rw [PropertyTrees.decls, hdecls]
          rfl
        · rw [PropertyTrees.signatures, hsignatures, List.map_cons]
          congr 1
          exact signature_congr hname.symm hoptional.symm hsame

/-- By induction on the levels of lifting that are left. -/
theorem exists_interfaceTree {docs parents : List String} {decls : List InterfaceDecl}
    {members : List PropertyDecl} {index : Option String} (hmodel : IsTypeName model.name)
    (h : (interfacesWithin d key levels docs parents model s).result = .ok decls)
    (hmembers : ((s.properties?.getD []).mapM
      (memberType (typeWithin d referrer levels') s.required)).result = .ok members)
    (hindex : (indexType (typeWithin d referrer levels') s).result = .ok index) :
    ∃ tree : InterfaceTree, tree.interfaces = decls ∧ tree.LiftedFrom model s ∧
      tree.members = members.map (·.signature)
        ++ (index.map ("[key: string]: " ++ ·)).toList := by
  induction levels generalizing docs parents model s decls levels' members index with
  | zero => cases h
  | succ levels ih =>
    unfold interfacesWithin at h
    obtain ⟨results, hresults, h⟩ := Traced.result_bind_eq_ok_iff.1 h
    obtain ⟨declared, hdeclared, h⟩ := Traced.result_bind_eq_ok_iff.1 h
    cases h
    have hsame : declared = index := indexType_unique hdeclared hindex
    -- an object that is lifted has the same members one level down
    have hlift (target : ModelName) (inner : Schema) (decls : List InterfaceDecl) (type : String)
        (htarget : IsTypeName target.name) (hinner : inner.isLiftable = true)
        (hdecls : (interfacesWithin d key levels inner.docs [] target inner).result = .ok decls)
        (htype : (typeWithin d referrer levels' inner).result = .ok type) :
        ∃ tree : InterfaceTree, tree.interfaces = decls ∧ tree.LiftedFrom target inner ∧
          type = admitNull inner (bracedType tree.members) := by
      obtain ⟨properties, hkind, hne⟩ := exists_properties_of_isLiftable hinner
      cases levels' with
      | zero => cases htype
      | succ levels' =>
        obtain ⟨members, index, hmembers, hindex, rfl⟩ := exists_members_of_typeWithin hkind htype
        have hproperties : inner.properties?.getD [] = properties := by
          rw [Schema.properties?_of_kind_object hkind, Option.getD_some]
        obtain ⟨tree, hinterfaces, hfrom, htree⟩ :=
          ih htarget hdecls (hproperties ▸ hmembers) hindex
        have hsome : members ≠ [] := by
          rintro rfl
          exact hne (List.forall₂_nil_right_iff.1 (Traced.mapM_of_ok hmembers).1)
        refine ⟨tree, hinterfaces, hfrom, ?_⟩
        rw [objectType_of_ne_nil (.inl hsome), htree]
    obtain ⟨trees, hinterfaces, hdecls, hlifted, hsignatures⟩ := exists_propertyTrees hlift hmodel
      (Traced.mapM_of_ok hresults).1 (Traced.mapM_of_ok hmembers).1
    refine ⟨.node model.name docs parents trees declared, ?_, .node hlifted, ?_⟩
    · rw [InterfaceTree.interfaces, hinterfaces, hdecls]
    · rw [InterfaceTree.members, hsignatures, hsame]

theorem modelDecls_of_kind_object {properties : List (String × Schema)}
    (hkind : s.kind = .object properties) :
    modelDecls d key s = interfaces d key s.docs [] (.ofKey key) s := by
  have henum : s.isEnum = false := by grind [Schema.kind]
  have hobject : s.isObject = true := by
    obtain ⟨entries, hentries, -⟩ :=
      Option.map_eq_some_iff.1 (Schema.properties?_of_kind_object hkind)
    rw [Schema.isObject, hentries, Option.isSome_some]
  unfold modelDecls
  dsimp only
  rw [henum, hobject, if_neg Bool.false_ne_true, if_pos rfl]

theorem indexType_ne_none {inner : Schema → Importing String} {index : Option String}
    (hopen : s.isOpen = true) (h : (indexType inner s).result = .ok index) : index ≠ none := by
  cases indexForm_of_indexType h with
  | schema _ _ => exact Option.some_ne_none _
  | any _ => exact Option.some_ne_none _
  | closed hclosed =>
    rw [hopen] at hclosed
    cases hclosed

/-- The interfaces that are declared for an object are those of a tree that lifts just the objects
    with properties, and the members of this tree are those of the type that the object has when it
    is written in place. -/
theorem interface_in_place {properties : List (String × Schema)} {decls : List Declaration}
    {type : String} (hkind : s.kind = .object properties) (hnull : s.nullable = false)
    (hsome : properties ≠ [] ∨ s.isOpen = true)
    (hdecls : (modelDecls d key s).result = .ok decls)
    (htype : (typeOf d referrer s).result = .ok type) :
    ∃ (tree : InterfaceTree) (members : List PropertyDecl) (index : Option String),
      decls = tree.interfaces.map .interface ∧ tree.LiftedFrom (.ofKey key) s ∧
      (properties.mapM (memberType (typeWithin d referrer nestingLimit) s.required)).result
        = .ok members ∧
      (indexType (typeWithin d referrer nestingLimit) s).result = .ok index ∧
      tree.members = members.map (·.signature)
        ++ (index.map ("[key: string]: " ++ ·)).toList ∧
      type = bracedType tree.members := by
  rw [modelDecls_of_kind_object hkind] at hdecls
  obtain ⟨interfaces, hinterfaces, rfl⟩ := Traced.result_map_eq_ok_iff.1 hdecls
  obtain ⟨members, index, hmembers, hindex, rfl⟩ := exists_members_of_typeWithin hkind htype
  have hproperties : s.properties?.getD [] = properties := by
    rw [Schema.properties?_of_kind_object hkind, Option.getD_some]
  obtain ⟨tree, rfl, hlifted, htree⟩ := exists_interfaceTree (isTypeName_ofKey key) hinterfaces
    (hproperties ▸ hmembers) hindex
  have hne : members ≠ [] ∨ index ≠ none := by
    refine hsome.imp (fun hne => ?_) fun hopen => indexType_ne_none hopen hindex
    rintro rfl
    exact hne (List.forall₂_nil_right_iff.1 (Traced.mapM_of_ok hmembers).1)
  refine ⟨tree, members, index, rfl, hlifted, hmembers, hindex, htree, ?_⟩
  rw [admitNull, hnull, if_neg Bool.false_ne_true, objectType_of_ne_nil hne, htree]

/-- A parcel with a sender, who is written in place and may be missing. -/
def parcel : Schema :=
  { propertyEntries := some
      [("sender", { propertyEntries := some [("name", { type := some (.single "string") })]
                    nullable := true }),
       ("to", .referenceTo "a.Letter")]
    required := ["sender"]
    additional := some (.allowed true) }

/-- The interfaces of a parcel. -/
def parcelInterfaces : List InterfaceDecl :=
  [{ name := "ParcelSender"
     properties := [{ name := "name", typeExpr := "string", optional := true }] },
   { name := "Parcel"
     properties :=
      [{ name := "sender", typeExpr := "ParcelSender | null" },
       { name := "to", typeExpr := "Letter", optional := true }]
     indexType := some "any" }]

/-- The sender becomes an interface, and is put back in place. -/
theorem interface_in_place_parcel :
    (modelDecls lettersDocument "a.Parcel" parcel).result
        = .ok (parcelInterfaces.map .interface) ∧
      ∃ tree : InterfaceTree, tree.LiftedFrom (.ofKey "a.Parcel") parcel ∧
        tree.interfaces = parcelInterfaces ∧
        tree.members
          = ["sender: \x7b name?: string \x7d | null", "to?: Letter", "[key: string]: any"] ∧
        (typeOf lettersDocument "a.Parcel" parcel).result = .ok (bracedType tree.members) := by
  have hkind : parcel.kind = .object (parcel.properties?.getD []) := rfl
  have hdecls : (modelDecls lettersDocument "a.Parcel" parcel).result
      = .ok (parcelInterfaces.map .interface) := rfl
  have htype : (typeOf lettersDocument "a.Parcel" parcel).result = .ok (bracedType
      ["sender: \x7b name?: string \x7d | null", "to?: Letter", "[key: string]: any"]) := rfl
  obtain ⟨tree, members, index, htree, hlifted, hmembers, hindex, htexts, hbraced⟩ :=
    interface_in_place hkind rfl (.inr rfl) hdecls htype
  have hinjective : Function.Injective (List.map Declaration.interface) :=
    List.map_injective_iff.2 fun _ _ => Declaration.interface.inj
  cases hmembers
  cases hindex
  exact ⟨hdecls, tree, hlifted, hinjective htree.symm, htexts, hbraced ▸ htype⟩

end Objects

end ClientGen
