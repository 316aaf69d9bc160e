import SyzAbi.Library.JsonPrinted

/-!
# JSON values without some keys

`withoutKeys dropped` removes the members with a dropped key from a value and from everything inside
it. Two values are equal apart from dropped members (`EqualApartFrom`) when one becomes the other by
adding and removing such members anywhere; that is the case exactly when they have the same value
without the keys (`withoutKeys_eq_iff`).
-/

set_option autoImplicit false
set_option relaxedAutoImplicit false

namespace SyzAbi.Library.Json

variable (dropped : Text → Bool)

/-! ### Removing members -/

mutual

/-- A value without the members whose keys are dropped, at any depth. -/
def withoutKeys : Value → Value
  | .null => .null
  | .bool value => .bool value
  | .int value => .int value
  | .float text => .float text
  | .str text => .str text
  | .arr items => .arr (withoutKeysItems items)
  | .obj members => .obj (withoutKeysMembers members)

/-- The items of an array without the dropped members inside them. -/
def withoutKeysItems : List Value → List Value
  | [] => []
  | item :: rest => withoutKeys item :: withoutKeysItems rest

/-- The members of an object without the dropped ones. -/
def withoutKeysMembers : List (Text × Value) → List (Text × Value)
  | [] => []
  | (key, value) :: rest =>
    if dropped key then withoutKeysMembers rest
    else (key, withoutKeys value) :: withoutKeysMembers rest

end

theorem withoutKeysItems_eq_map (items : List Value) :
    withoutKeysItems dropped items = items.map (withoutKeys dropped) := by
  induction items with
  | nil => rfl
  | cons item rest ih => rw [withoutKeysItems, ih, List.map_cons]

/-- A member of an object after one was set is that one, or was there before. -/
theorem mem_insertMember {key : Text} {value : Value} {object : List (Text × Value)}
    {member : Text × Value} (hmember : member ∈ insertMember key value object) :
    member = (key, value) ∨ member ∈ object := by
  induction object with
  | nil => exact Or.inl (List.mem_singleton.mp hmember)
  | cons first rest ih =>
    rw [insertMember] at hmember
    split_ifs at hmember
    · rcases List.mem_cons.mp hmember with hnew | hold
      · exact Or.inl hnew
      · exact Or.inr (List.mem_cons_of_mem first hold)
    · exact List.mem_cons.mp hmember
    · rcases List.mem_cons.mp hmember with hfirst | hrest
      · exact Or.inr (hfirst ▸ List.mem_cons_self)
      · exact (ih hrest).imp_right (List.mem_cons_of_mem first)

/-- The members of an object that was set member by member are among those that were set. -/
theorem mem_setMembers {object members : List (Text × Value)} {member : Text × Value}
    (hmember : member ∈ setMembers object members) : member ∈ members ∨ member ∈ object := by
  induction members generalizing object with
  | nil => exact Or.inr hmember
  | cons first rest ih =>
    rcases ih hmember with hrest | hobject
    · exact Or.inl (List.mem_cons_of_mem first hrest)
    · rcases mem_insertMember hobject with hfirst | hold
      · exact Or.inl (hfirst ▸ List.mem_cons_self)
      · exact Or.inr hold

/-- Nothing happens to members that are kept and whose values do not change. -/
theorem withoutKeysMembers_of_forall {members : List (Text × Value)}
    (hkept : ∀ member ∈ members, dropped member.1 = false ∧
      withoutKeys dropped member.2 = member.2) :
    withoutKeysMembers dropped members = members := by
  induction members with
  | nil => rfl
  | cons member rest ih =>
    obtain ⟨key, value⟩ := member
    obtain ⟨hkey, hvalue⟩ := hkept (key, value) List.mem_cons_self
    simp only at hkey hvalue
    rw [withoutKeysMembers, hkey, if_neg Bool.false_ne_true, hvalue,
      ih fun other hother ↦ hkept other (List.mem_cons_of_mem _ hother)]

/-- Nothing happens to an array whose items do not change. -/
theorem withoutKeys_arr_of_forall {items : List Value}
    (hitems : ∀ item ∈ items, withoutKeys dropped item = item) :
    withoutKeys dropped (.arr items) = .arr items := by
  rw [withoutKeys, withoutKeysItems_eq_map, List.map_congr_left hitems, List.map_id']

/-! ### Equality apart from dropped members -/

mutual

/-- Two values become equal by adding and removing members with dropped keys, at any depth. -/
inductive EqualApartFrom : Value → Value → Prop
  | null : EqualApartFrom .null .null
  | bool (value : Bool) : EqualApartFrom (.bool value) (.bool value)
  | int (value : ℤ) : EqualApartFrom (.int value) (.int value)
  | float (text : Text) : EqualApartFrom (.float text) (.float text)
  | str (text : Text) : EqualApartFrom (.str text) (.str text)
  | arr {items items' : List Value} (hitems : ItemsApartFrom items items') :
      EqualApartFrom (.arr items) (.arr items')
  | obj {members members' : List (Text × Value)} (hmembers : MembersApartFrom members members') :
      EqualApartFrom (.obj members) (.obj members')

/-- The items of two arrays, one by one. -/
inductive ItemsApartFrom : List Value → List Value → Prop
  | nil : ItemsApartFrom [] []
  | cons {item item' : Value} {rest rest' : List Value} (hitem : EqualApartFrom item item')
      (hrest : ItemsApartFrom rest rest') : ItemsApartFrom (item :: rest) (item' :: rest')

/-- The members of two objects: dropped ones may stand on either side. -/
inductive MembersApartFrom : List (Text × Value) → List (Text × Value) → Prop
  | empty : MembersApartFrom [] []
  | left {key : Text} (hdropped : dropped key = true) (value : Value)
      {rest rest' : List (Text × Value)} (hrest : MembersApartFrom rest rest') :
      MembersApartFrom ((key, value) :: rest) rest'
  | right {key : Text} (hdropped : dropped key = true) (value : Value)
      {rest rest' : List (Text × Value)} (hrest : MembersApartFrom rest rest') :
      MembersApartFrom rest ((key, value) :: rest')
  | both {key : Text} {value value' : Value} (hvalue : EqualApartFrom value value')
      {rest rest' : List (Text × Value)} (hrest : MembersApartFrom rest rest') :
      MembersApartFrom ((key, value) :: rest) ((key, value') :: rest')

end

variable {dropped}

mutual

/-- Values that are equal apart from dropped members have the same value without the keys. -/
theorem EqualApartFrom.withoutKeys_eq {left right : Value} :
    EqualApartFrom dropped left right → withoutKeys dropped left = withoutKeys dropped right
  | .null => rfl
  | .bool _ => rfl
  | .int _ => rfl
  | .float _ => rfl
  | .str _ => rfl
  | .arr hitems => by rw [withoutKeys, withoutKeys, hitems.withoutKeysItems_eq]
  | .obj hmembers => by rw [withoutKeys, withoutKeys, hmembers.withoutKeysMembers_eq]

theorem ItemsApartFrom.withoutKeysItems_eq {items items' : List Value} :
    ItemsApartFrom dropped items items' →
      withoutKeysItems dropped items = withoutKeysItems dropped items'
  | .nil => rfl
  | .cons hitem hrest => by
    rw [withoutKeysItems, withoutKeysItems, hitem.withoutKeys_eq, hrest.withoutKeysItems_eq]

theorem MembersApartFrom.withoutKeysMembers_eq {members members' : List (Text × Value)} :
    MembersApartFrom dropped members members' →
      withoutKeysMembers dropped members = withoutKeysMembers dropped members'
  | .empty => rfl
  | .left hdropped _ hrest => by
    rw [withoutKeysMembers, if_pos hdropped, hrest.withoutKeysMembers_eq]
  | .right hdropped _ hrest => by
    rw [withoutKeysMembers, if_pos hdropped, hrest.withoutKeysMembers_eq]
  | .both hvalue hrest => by
    rw [withoutKeysMembers, withoutKeysMembers, hvalue.withoutKeys_eq, hrest.withoutKeysMembers_eq]

end

/-- Members that are all dropped are equal to none. -/
theorem MembersApartFrom.of_nil {members : List (Text × Value)}
    (heq : withoutKeysMembers dropped members = []) : MembersApartFrom dropped [] members := by
  induction members with
  | nil => exact .empty
  | cons member rest ih =>
    obtain ⟨key, value⟩ := member
    by_cases hdropped : dropped key = true
    · rw [withoutKeysMembers, if_pos hdropped] at heq
      exact .right hdropped value (ih heq)
    · rw [withoutKeysMembers, if_neg hdropped] at heq
      cases heq

mutual

/-- Values with the same value without the keys are equal apart from dropped members. -/
theorem EqualApartFrom.of_eq : ∀ left right : Value,
    withoutKeys dropped left = withoutKeys dropped right → EqualApartFrom dropped left right
  | .null, right, heq => by
    cases right <;> first | exact .null | cases heq
  | .bool value, right, heq => by
    cases right <;> first | (cases heq; exact .bool value) | cases heq
  | .int value, right, heq => by
    cases right <;> first | (cases heq; exact .int value) | cases heq
  | .float text, right, heq => by
    cases right <;> first | (cases heq; exact .float text) | cases heq
  | .str text, right, heq => by
    cases right <;> first | (cases heq; exact .str text) | cases heq
  | .arr items, right, heq => by
    cases right with
    | arr items' => exact .arr (ItemsApartFrom.of_eq items items' (Value.arr.inj heq))
    | _ => cases heq
  | .obj members, right, heq => by
    cases right with
    | obj members' => exact .obj (MembersApartFrom.of_eq members members' (Value.obj.inj heq))
    | _ => cases heq

theorem ItemsApartFrom.of_eq : ∀ items items' : List Value,
    withoutKeysItems dropped items = withoutKeysItems dropped items' →
      ItemsApartFrom dropped items items'
  | [], [], _ => .nil
  | [], _ :: _, heq => by cases heq
  | _ :: _, [], heq => by cases heq
  | item :: rest, item' :: rest', heq => by
    obtain ⟨hitem, hrest⟩ := List.cons.inj heq
    exact .cons (EqualApartFrom.of_eq item item' hitem) (ItemsApartFrom.of_eq rest rest' hrest)

theorem MembersApartFrom.of_eq : ∀ members members' : List (Text × Value),
    withoutKeysMembers dropped members = withoutKeysMembers dropped members' →
      MembersApartFrom dropped members members'
  | [], _, heq => MembersApartFrom.of_nil heq.symm
  | (key, value) :: rest, members', heq => by
    by_cases hdropped : dropped key = true
    · rw [withoutKeysMembers, if_pos hdropped] at heq
      exact .left hdropped value (MembersApartFrom.of_eq rest members' heq)
    · rw [withoutKeysMembers, if_neg hdropped] at heq
      -- dropped members may stand before the partner of the first one
      induction members' with
      | nil => cases heq
      | cons member' rest' ih =>
        obtain ⟨key', value'⟩ := member'
        by_cases hdropped' : dropped key' = true
        · rw [withoutKeysMembers, if_pos hdropped'] at heq
          exact .right hdropped' value' (ih heq)
        · rw [withoutKeysMembers, if_neg hdropped'] at heq
          obtain ⟨hmember, hrest⟩ := List.cons.inj heq
          obtain ⟨rfl, hvalue⟩ := Prod.mk.inj hmember
          exact .both (EqualApartFrom.of_eq value value' hvalue)
            (MembersApartFrom.of_eq rest rest' hrest)

end

/-- Two values have the same value without the keys exactly when they are equal apart from dropped
members at any depth. -/
theorem withoutKeys_eq_iff {left right : Value} :
    withoutKeys dropped left = withoutKeys dropped right ↔ EqualApartFrom dropped left right :=
  ⟨EqualApartFrom.of_eq left right, EqualApartFrom.withoutKeys_eq⟩

end SyzAbi.Library.Json
