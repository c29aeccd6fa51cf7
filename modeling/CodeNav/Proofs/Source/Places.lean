import CodeNav.Source.Extract
import Mathlib.Data.List.Basic

/-! The nodes of a tree as places: each with the nodes above it, in preorder. The members of an
object literal are found at the places below it to which a way leads through nested literals. -/
namespace CodeNav
set_option autoImplicit false
open Text

/-- A node of a tree, and its site and those of the nodes above it, the nearest one first. -/
structure Source.Place where
  node : Node
  above : List Source.Site

namespace Node

mutual

/-- The nodes of a tree in preorder. -/
def places (above : List Source.Site) : Node → List Source.Place
  | .mk label children =>
    ⟨.mk label children, above⟩ :: childPlaces (.mk label children) above 0 children

def childPlaces (parent : Node) (above : List Source.Site) (index : Nat) :
    List Node → List Source.Place
  | [] => []
  | n :: ns => n.places (⟨parent, index⟩ :: above) ++ childPlaces parent above (index + 1) ns

end

/-- Induction from the children of a node to the node. -/
theorem induction {motive : Node → Prop}
    (mk : ∀ label children, (∀ n ∈ children, motive n) → motive (.mk label children)) :
    ∀ n, motive n
  | .mk label children => mk label children (fun n _ => induction mk n)

theorem childPlaces_eq (parent : Node) (above : List Source.Site) (index : Nat)
    (children : List Node) :
    childPlaces parent above index children =
      (children.zipIdx index).flatMap fun c => c.1.places (⟨parent, c.2⟩ :: above) := by
  induction children generalizing index with
  | nil => rfl
  | cons n ns ih => rw [childPlaces, ih, List.zipIdx_cons, List.flatMap_cons]

theorem places_eq (n : Node) (above : List Source.Site) :
    n.places above =
      ⟨n, above⟩ :: n.children.zipIdx.flatMap fun c => c.1.places (⟨n, c.2⟩ :: above) := by
  cases n with
  | mk label children => rw [places, childPlaces_eq]; rfl

end Node

namespace Source

variable (source : Source)

/-! ## Members of a literal -/

/-- The key of a property and the function it holds: the value of a pair, or a method itself. -/
def functionProperty? (property : Node) : Option (String × Node) :=
  match property.kind with
  | .pair => do
    let key ← (property.child? .key).bind source.keyText?
    let value ← property.child? .value
    if value.kind = .functionValue then some (key, value) else none
  | .methodDefinition => do
    let key ← (property.child? .name).bind source.keyText?
    some (key, property)
  | _ => none

/-- The keys on the way from a literal to a property, by the sites from the property up. The way
goes from a literal to one of its pairs, and on to the literal that is the value of this pair. -/
def literalKeys? : List Site → Option (List String)
  | [] => none
  | [_] => some []
  | inner :: value :: above =>
    if inner.parent.kind = .object ∧ value.parent.kind = .pair ∧ value.plays .value = true then do
      let keys ← literalKeys? above
      let key ← (value.parent.child? .key).bind source.keyText?
      some (keys ++ [key])
    else none

/-- The member that a place below a literal stands for. -/
def memberAt? (scope path : List String) (p : Place) : Option Declaration := do
  let keys ← source.literalKeys? p.above
  let (key, function) ← source.functionProperty? p.node
  some { scope, form := .objectMember (path ++ keys ++ [key]), line := p.node.line,
         params := some (source.parameters function) }

/-- The members of an object literal, in the order of the places below it. -/
def membersBelow (scope path : List String) (object : Node) : List Declaration :=
  (object.places []).filterMap (source.memberAt? scope path)

theorem memberAt_of_none {scope path : List String} {p : Place}
    (h : source.literalKeys? p.above = none) : source.memberAt? scope path p = none := by
  rw [memberAt?, h]
  rfl

/-- Below a node that no way leads through there is no member. -/
theorem filterMap_places_eq_nil (scope path : List String) (n : Node) :
    ∀ above, source.literalKeys? above = none →
      (∀ index, source.literalKeys? (⟨n, index⟩ :: above) = none) →
      (n.places above).filterMap (source.memberAt? scope path) = [] := by
  induction n using Node.induction with
  | mk label children ih =>
    intro above habove hn
    rw [Node.places_eq, List.filterMap_cons_none (source.memberAt_of_none habove),
      List.filterMap_flatMap, List.flatMap_eq_nil_iff]
    rintro ⟨c, index⟩ hc
    apply ih c (List.fst_mem_of_mem_zipIdx hc) _ (hn index)
    intro inner
    rw [literalKeys?, habove]
    split <;> rfl

/-! ## The recursion through a literal -/

theorem literalMembers_eq (scope path : List String) (object : Node) :
    source.literalMembers scope path object =
      object.children.flatMap (source.propertyMembers scope path) := by
  have hproperties (properties : List Node) :
      source.propertiesMembers scope path properties =
        properties.flatMap (source.propertyMembers scope path) := by
    induction properties with
    | nil => rfl
    | cons p ps ih => rw [propertiesMembers, ih, List.flatMap_cons]
  cases object with
  | mk label children => rw [literalMembers, hproperties]; rfl

theorem valueMembers_eq (scope path : List String) (property : Node) (children : List Node) :
    source.valueMembers scope path property children =
      match children.find? (·.role = .value) with
      | none => []
      | some value =>
        if value.kind = .functionValue then [source.objectMember scope path property value]
        else if value.kind = .object then source.literalMembers scope path value
        else [] := by
  induction children with
  | nil => rw [valueMembers, List.find?_nil]
  | cons n ns ih =>
    by_cases hrole : n.role = .value
    · rw [valueMembers, if_pos hrole, List.find?_cons_of_pos (by simpa using hrole)]
    · rw [valueMembers, if_neg hrole, ih, List.find?_cons_of_neg (by simpa using hrole)]

/-- Of the children of a node, only the first with a property counts. -/
theorem flatMap_findIdx {α β : Type} (q : α → Bool) (f : α → List β) (l : List α) (start : Nat) :
    (l.zipIdx start).flatMap
        (fun c => if (l.findIdx? q).map (· + start) = some c.2 then f c.1 else []) =
      ((l.find? q).map f).getD [] := by
  induction l generalizing start with
  | nil => rfl
  | cons a l ih =>
    rw [List.zipIdx_cons, List.flatMap_cons, List.findIdx?_cons]
    by_cases hq : q a = true
    · have hlater : (l.zipIdx (start + 1)).flatMap
          (fun c => if (some 0).map (· + start) = some c.2 then f c.1 else []) = [] := by
        rw [List.flatMap_eq_nil_iff]
        intro c hc
        have hle := List.le_snd_of_mem_zipIdx hc
        rw [if_neg]
        simp only [Option.map_some, Option.some.injEq]
        omega
      rw [if_pos hq, hlater, List.find?_cons_of_pos hq]
      simp
    · have hshift : ((l.findIdx? q).map (· + 1)).map (· + start) =
          (l.findIdx? q).map (· + (start + 1)) := by
        rw [Option.map_map]
        congr 1
        funext i
        simp only [Function.comp_apply]
        omega
      have hhead : (l.findIdx? q).map (· + (start + 1)) ≠ some start := by
        intro h
        obtain ⟨i, _, hi⟩ := Option.map_eq_some_iff.mp h
        omega
      rw [if_neg hq, List.find?_cons_of_neg hq, ← ih (start + 1), hshift, if_neg hhead,
        List.nil_append]

/-- The nested literal of a property: what stands below its first value, if it has a key. -/
def nestedMembers (scope path : List String) (property : Node) : List Declaration :=
  if property.kind = .pair then
    match (property.child? .key).bind source.keyText?, property.child? .value with
    | some key, some value =>
      if value.kind = .object then source.literalMembers scope (path ++ [key]) value else []
    | _, _ => []
  else []

/-- A property declares the function that it holds, or what the literal in it declares. -/
theorem propertyMembers_eq (scope path : List String) (property : Node) :
    source.propertyMembers scope path property =
      ((source.functionProperty? property).map fun held =>
        source.objectMember scope (path ++ [held.1]) property held.2).toList ++
      source.nestedMembers scope path property := by
  cases property with
  | mk label children =>
    rw [propertyMembers, functionProperty?, nestedMembers]
    have hkind : (Node.mk label children).kind = label.kind := rfl
    rw [hkind]
    cases label.kind with
    | pair =>
      simp only [if_true]
      cases ((Node.mk label children).child? .key).bind source.keyText? with
      | none => rfl
      | some key =>
        simp only [valueMembers_eq]
        have hvalue : (Node.mk label children).child? .value =
          children.find? (·.role = .value) := rfl
        rw [hvalue]
        cases children.find? (·.role = .value) with
        | none => rfl
        | some value =>
          by_cases hfunction : value.kind = .functionValue
          · simp [hfunction]
          · by_cases hobject : value.kind = .object <;> simp [hfunction, hobject]
    | methodDefinition =>
      cases ((Node.mk label children).child? .name).bind source.keyText? <;> simp
    | _ => rfl

/-! ## Literals by their places -/

/-- What the places below a node say when the node is a literal to which keys lead. -/
def ReadsLiteral (scope path : List String) (n : Node) : Prop :=
  n.kind = .object → ∀ above keys,
    (∀ index, source.literalKeys? (⟨n, index⟩ :: above) = some keys) →
    (n.children.zipIdx.flatMap fun c => c.1.places (⟨n, c.2⟩ :: above)).filterMap
        (source.memberAt? scope path) =
      source.literalMembers scope (path ++ keys) n

theorem filterMap_places_child (scope path : List String) (property object : Node)
    (place index : Nat) (above : List Site) (keys : List String) (hobject : object.kind = .object)
    (hkeys : source.literalKeys? (⟨object, place⟩ :: above) = some keys) (n : Node)
    (hn : source.ReadsLiteral scope path n) :
    (n.places (⟨property, index⟩ :: ⟨object, place⟩ :: above)).filterMap
        (source.memberAt? scope path) =
      if property.childIndex? .value = some index then
        if property.kind = .pair ∧ n.kind = .object then
          match (property.child? .key).bind source.keyText? with
          | some key => source.literalMembers scope (path ++ keys ++ [key]) n
          | none => []
        else []
      else [] := by
  have hself : source.literalKeys? (⟨property, index⟩ :: ⟨object, place⟩ :: above) = none := by
    rw [literalKeys?, if_neg]
    rintro ⟨_, hpair, _⟩
    rw [hobject] at hpair
    cases hpair
  have hbelow (inner : Nat) :
      source.literalKeys? (⟨n, inner⟩ :: ⟨property, index⟩ :: ⟨object, place⟩ :: above) =
        if n.kind = .object ∧ property.kind = .pair ∧ property.childIndex? .value = some index then
          ((property.child? .key).bind source.keyText?).map (fun key => keys ++ [key])
        else none := by
    rw [literalKeys?, hkeys]
    simp only [Site.plays, beq_iff_eq]
    split
    · cases (property.child? .key).bind source.keyText? <;> rfl
    · rfl
  -- A way goes on below the child only if this is the value of a pair, and a literal.
  by_cases hway : n.kind = .object ∧ property.kind = .pair ∧
      property.childIndex? .value = some index
  · simp only [if_pos hway] at hbelow
    rw [if_pos hway.2.2, if_pos ⟨hway.2.1, hway.1⟩]
    cases hkey : (property.child? .key).bind source.keyText? with
    | none =>
      simp only [hkey, Option.map_none] at hbelow
      exact source.filterMap_places_eq_nil scope path n _ hself hbelow
    | some key =>
      simp only [hkey, Option.map_some] at hbelow
      rw [Node.places_eq, List.filterMap_cons_none (source.memberAt_of_none hself),
        hn hway.1 _ (keys ++ [key]) hbelow, ← List.append_assoc]
  · simp only [if_neg hway] at hbelow
    rw [source.filterMap_places_eq_nil scope path n _ hself hbelow]
    split
    · next hvalue =>
      rw [if_neg]
      rintro ⟨hpair, hobject'⟩
      exact hway ⟨hobject', hpair, hvalue⟩
    · rfl

theorem filterMap_places_property (scope path : List String) (property object : Node)
    (place : Nat) (above : List Site) (keys : List String) (hobject : object.kind = .object)
    (hkeys : source.literalKeys? (⟨object, place⟩ :: above) = some keys)
    (hchildren : ∀ n ∈ property.children, source.ReadsLiteral scope path n) :
    (property.places (⟨object, place⟩ :: above)).filterMap (source.memberAt? scope path) =
      source.propertyMembers scope (path ++ keys) property := by
  have hself : source.memberAt? scope path ⟨property, ⟨object, place⟩ :: above⟩ =
      (source.functionProperty? property).map fun held =>
        source.objectMember scope (path ++ keys ++ [held.1]) property held.2 := by
    rw [memberAt?, hkeys]
    cases source.functionProperty? property <;> rfl
  have hnested : (property.children.zipIdx.flatMap fun c =>
      (c.1.places (⟨property, c.2⟩ :: ⟨object, place⟩ :: above)).filterMap
        (source.memberAt? scope path)) = source.nestedMembers scope (path ++ keys) property := by
    rw [List.flatMap_congr (fun c hc => source.filterMap_places_child scope path property object
      place c.2 above keys hobject hkeys c.1 (hchildren c.1 (List.fst_mem_of_mem_zipIdx hc)))]
    have hfirst := flatMap_findIdx (fun n : Node => n.role = .value) (fun n =>
      if property.kind = .pair ∧ n.kind = .object then
        match (property.child? .key).bind source.keyText? with
        | some key => source.literalMembers scope (path ++ keys ++ [key]) n
        | none => []
      else []) property.children 0
    simp only [Nat.add_zero, Option.map_id_fun', id_eq] at hfirst
    have hvalue : property.child? .value = property.children.find? (·.role = .value) := rfl
    rw [Node.childIndex?, hfirst, nestedMembers, ← hvalue]
    by_cases hpair : property.kind = .pair
    · cases (property.child? .key).bind source.keyText? <;> cases property.child? .value <;>
        simp [hpair]
    · cases property.child? .value <;> simp [hpair]
  rw [Node.places_eq, propertyMembers_eq, ← hself, ← hnested, List.filterMap_cons,
    List.filterMap_flatMap]
  cases source.memberAt? scope path ⟨property, ⟨object, place⟩ :: above⟩ <;> rfl

theorem readsLiteral (scope path : List String) (n : Node) :
    source.ReadsLiteral scope path n := by
  -- A literal needs the fact for the values of its properties, so it goes with the children.
  suffices h : source.ReadsLiteral scope path n ∧
      ∀ c ∈ n.children, source.ReadsLiteral scope path c from h.1
  induction n using Node.induction with
  | mk label children ih =>
    refine ⟨?_, fun c hc => (ih c hc).1⟩
    intro hobject above keys hkeys
    have hproperty : ∀ c ∈ (Node.mk label children).children.zipIdx,
        (c.1.places (⟨.mk label children, c.2⟩ :: above)).filterMap
            (source.memberAt? scope path) =
          source.propertyMembers scope (path ++ keys) c.1 := fun c hc =>
      source.filterMap_places_property scope path c.1 _ c.2 above keys hobject (hkeys c.2)
        (ih c.1 (List.fst_mem_of_mem_zipIdx hc)).2
    rw [literalMembers_eq, List.filterMap_flatMap, List.flatMap_congr hproperty,
      ← List.flatMap_map Prod.fst, List.zipIdx_map_fst]

theorem membersBelow_eq (scope path : List String) (object : Node)
    (hobject : object.kind = .object) :
    source.membersBelow scope path object = source.literalMembers scope path object := by
  have hroot : source.memberAt? scope path ⟨object, []⟩ = none := source.memberAt_of_none rfl
  have h := source.readsLiteral scope path object hobject [] [] (fun _ => rfl)
  rw [List.append_nil] at h
  rw [membersBelow, Node.places_eq, List.filterMap_cons_none hroot, h]

end Source

end CodeNav
