import Kinglet.Pubsub.Heap

/-!
# Writes of nested fields

The merge of one part of a JSON column walks from object to object, and creates those that are
missing. What it builds comes from a text and is shared with nothing, so it is a tree here; all else
is on the heap. The walk leaves the tree for a prototype where it reads a `__proto__` that is
inherited, and what it writes then is shared. Each write to the heap is recorded.
-/

namespace Kinglet.Pubsub

open Js

namespace Heap

variable (h : Heap)

/-! ## The value that is built -/

/-- The prototype of a value of JSON. -/
def protoOf : JsValue → Option ℕ
  | .undefined | .null => none
  | .bool _ => some booleanPrototype
  | .num _ => some numberPrototype
  | .str _ => some stringPrototype
  | .arr _ _ => some arrayPrototype
  | .obj _ _ => some objectPrototype

/-- A property that a value of JSON has of its own. -/
def ownValue (base : JsValue) (name : JsString) : Option JsValue :=
  match base with
  | .obj _ fields => ownField fields name
  | .arr _ elements =>
      if name = "length" then some (.num (natNumber elements.length)) else ownProperty base name
  | .str s => if name = "length" then some (.num (natNumber s.length)) else ownProperty base name
  | _ => none

/-- The object that is an own property. -/
def ownObject (base : JsValue) (key : JsString) : Option JsValue :=
  match ownValue base key with
  | some (.arr ref elements) => some (.arr ref elements)
  | some (.obj ref fields) => some (.obj ref fields)
  | _ => none

/-- The object that an inherited property is. -/
def inheritedObject (base : JsValue) (key : JsString) : Option ℕ :=
  if (ownValue base key).isSome then none
  else
    (protoOf base).bind fun proto =>
      match h.slot proto key with
      | some .proto => some proto
      | some (.data (.ref inner) _) => if h.isFunction inner then none else some inner
      | _ => none

/-- `base[name] = value` in strict mode, `none` when it throws. -/
def write (base : JsValue) (name : JsString) (value : JsValue) : Option JsValue :=
  match ownValue base name, (protoOf base).bind fun proto => h.slot proto name with
  | none, some .proto => some base
  | none, some (.data _ .readOnly) => none
  | _, _ =>
      match base with
      | .obj ref fields => some (.obj ref (setField name value fields))
      | .arr ref elements => Pubsub.assign (.arr ref elements) name value
      | _ => none

/-! ## The walk -/

/-- `setNestedValue` from an object of the heap on: the heap after each write, and whether it came
to its end. -/
def setOutside (value : Val) : Heap → ℕ → List JsString → List Heap × Bool
  | _, _, [] => ([], true)
  | h, address, [leaf] =>
      match h.assign address leaf value with
      | none => ([], false)
      | some h' => ([h'], true)
  | h, address, key :: next :: keys =>
      match h.objectAt address key with
      | some inner => setOutside value h inner (next :: keys)
      | none =>
          match (h ++ [HeapObject.empty]).assign address key (.ref h.length) with
          | none => ([], false)
          | some h' =>
              let (heaps, done) := setOutside value h' h.length (next :: keys)
              (h' :: heaps, done)

/-- `setNestedValue(obj, segments, value)`: the heap after each write to it, and the value built,
`none` when it throws. -/
def setNestedValue (value : Val) : JsValue → List JsString → List Heap × Option JsValue
  | base, [] => ([], some base)
  | base, [leaf] => ([], h.write base leaf (h.toTree value))
  | base, key :: next :: keys =>
      match ownObject base key with
      | some inner =>
          let (heaps, inner) := setNestedValue value inner (next :: keys)
          (heaps, inner.bind (h.write base key))
      | none =>
          match h.inheritedObject base key with
          | some proto =>
              let (heaps, done) := setOutside value h proto (next :: keys)
              (heaps, if done then some base else none)
          | none =>
              match h.write base key (.obj none []) with
              | none => ([], none)
              | some _ =>
                  let (heaps, inner) := setNestedValue value (.obj none []) (next :: keys)
                  (heaps, inner.bind (h.write base key))

/-- `getNestedValue(obj, segments)`. -/
def getNestedValue : Val → List JsString → Val
  | value, [] => value
  | value, segment :: segments =>
      if h.isObject value then getNestedValue ((h.get value segment).getD .undefined) segments
      else .undefined

/-- `value ?? {}`. -/
def orEmpty (value : Option Val) : Heap × Val :=
  match value with
  | none | some .undefined | some .null => (h ++ [HeapObject.empty], .ref h.length)
  | some value => (h, value)

/-- `topField in updates ? updates[topField] : (existing[topField] ?? null)`, as far as it can be
parsed: the text of a function or of the shared prototype is no JSON. -/
def baseText (topField : JsString) (existing updates : Fields) : Option JsValue :=
  match ownField updates topField with
  | some value => some value
  | none =>
      match h.slot objectPrototype topField with
      | none => some (orElse ((ownField existing topField).getD .undefined) .null)
      | some .proto => none
      | some (.data value _) =>
          match value with
          | .ref address => if h.isFunction address then none else some (h.toTree value)
          | value => some (h.toTree value)

/-- The value the request has for a path. -/
def incomingValue (incoming : Val) (topField subField : JsString) : Val :=
  let (h', incomingTop) := h.orEmpty (h.get incoming topField)
  h'.getNestedValue incomingTop (splitUnit 0x2E subField)

/-- `applyNestedSubUpdate(topField, subField, incoming, existing, updates)`, which is also
`applyNestedTopicSubUpdate`. -/
def applyNestedSubUpdate (topField subField : JsString) (incoming : Val)
    (existing updates : Fields) : List Heap × Option Fields :=
  match (h.baseText topField existing updates).bind parseBase with
  | none => ([], none)
  | some base =>
      let (heaps, base) :=
        h.setNestedValue (h.incomingValue incoming topField subField) base (splitUnit 0x2E subField)
      (heaps, base.map fun base =>
        assignField topField (((jsonStringify base).map .str).getD .undefined) updates)

/-! ## Requests -/

/-- One turn of the loop over the fields. -/
def applyField (resource : Resource) (data : Val) (existing updates : Fields) (field : JsString) :
    List Heap × Option Fields :=
  match cut 0x2E field with
  | (topField, some subField) => h.applyNestedSubUpdate topField subField data existing updates
  | (_, none) =>
      match (resource.updatable.lookup field).bind fun kind =>
          kind.update (h.toTree ((h.get data field).getD .undefined)) with
      | none => ([], some updates)
      | some value => ([], some (setField field value updates))

def applyFields (resource : Resource) (data : Val) (existing : Fields) :
    Heap → List JsString → Fields → List Heap × Option Fields
  | _, [], updates => ([], some updates)
  | h, field :: fields, updates =>
      match h.applyField resource data existing updates field with
      | (heaps, none) => (heaps, none)
      | (heaps, some updates) =>
          let (later, result) :=
            applyFields resource data existing (heaps.getLast?.getD h) fields updates
          (heaps ++ later, result)

/-- `updateBody?.subscription ?? {}`, or the topic. -/
def requestData (resource : Resource) (body : Val) : Heap × Val :=
  h.orEmpty (h.get body resource.bodyField)

/-- `updateMask.split(',').map(f => f.trim())`, if there is a mask; `none` when it is no string. -/
def maskFields (body : Val) : Option (List JsString) :=
  match h.toTree ((h.get body "updateMask").getD .undefined) with
  | .str mask => some (if mask = [] then [] else (splitUnit 0x2C mask).map trim)
  | mask => if truthy mask then none else some []

/-- The entries of the mask that the loop goes through, and what is stored: none when the mask is no
list, or when an entry needs a record that is not there. -/
def requestFields (body : Val) (record : Option Fields) : List JsString × Fields :=
  match h.maskFields body with
  | none => ([], [])
  | some fields =>
      if fields.any fun field => field.contains 0x2E then
        match record with
        | none => ([], [])
        | some existing => (fields, existing)
      else (fields, [])

/-- `updateTopic(name, body)` or `updateSubscription(name, body)`, of a stored record: the heap after
each write to it. -/
def executeUpdate (resource : Resource) (body : Val) (record : Option Fields) : List Heap :=
  let (h', data) := h.requestData resource body
  let (fields, existing) := h.requestFields body record
  (applyFields resource data existing h' fields []).1

/-! ## Where the walk leaves the value -/

/-- The prototype that the walk comes to, and the segments that are left there. -/
def escape : JsValue → List JsString → Option (ℕ × List JsString)
  | _, [] | _, [_] => none
  | base, key :: next :: keys =>
      match ownObject base key with
      | some inner => escape inner (next :: keys)
      | none =>
          if key = js "__proto__" ∧ ownValue base key = none then
            (protoOf base).map fun proto => (proto, next :: keys)
          else if h.write base key (.obj none []) = none then none
          else escape (.obj none []) (next :: keys)

/-- The walk over the segments, from a prototype on, is refused or writes what is there. -/
def Unchanged (value : Val) : ℕ → List JsString → Prop
  | _, [] => True
  | address, [leaf] => ∀ h' ∈ h.assign address leaf value, h' = h
  | address, key :: next :: keys =>
      if key = js "__proto__" then
        address = objectPrototype ∨ Unchanged value objectPrototype (next :: keys)
      else h.Refuses address key

/-- An entry of the mask does not leave the value that it is about, or what it writes then was
there. -/
def FieldInside (data : Val) (existing updates : Fields) (field : JsString) : Prop :=
  ∀ subField ∈ (cut 0x2E field).2,
    ∀ base ∈ (h.baseText (cut 0x2E field).1 existing updates).bind parseBase,
    ∀ proto keys, h.escape base (splitUnit 0x2E subField) = some (proto, keys) →
      h.Unchanged (h.incomingValue data (cut 0x2E field).1 subField) proto keys

/-- Every entry, with the columns that those before it have made. -/
def Inside (resource : Resource) (data : Val) (existing : Fields) : List JsString → Fields → Prop
  | [], _ => True
  | field :: fields, updates =>
      h.FieldInside data existing updates field ∧
        ∀ updates' ∈ (h.applyField resource data existing updates field).2,
          Inside resource data existing fields updates'

def UpdateInside (resource : Resource) (body : Val) (record : Option Fields) : Prop :=
  (h.requestData resource body).1.Inside resource (h.requestData resource body).2
    (h.requestFields body record).2 (h.requestFields body record).1 []

variable {h} {value : Val}

theorem protoOf_le {base : JsValue} {proto : ℕ} (hproto : protoOf base = some proto) :
    proto ≤ booleanPrototype := by
  cases base <;> simp only [protoOf, Option.some.injEq, reduceCtorEq] at hproto <;> subst hproto <;>
    decide

theorem Standard.inheritedObject_eq (hstandard : h.Standard) (base : JsValue) (key : JsString) :
    h.inheritedObject base key =
      if key = js "__proto__" ∧ ownValue base key = none then protoOf base else none := by
  rw [inheritedObject]
  cases hown : ownValue base key with
  | some own => simp
  | none =>
    cases hproto : protoOf base with
    | none => simp
    | some proto =>
      have hle : proto ≤ booleanPrototype := protoOf_le hproto
      by_cases hkey : key = js "__proto__"
      · simp [hkey, hstandard.slot_proto hle]
      · cases hslot : h.slot proto key with
        | none => simp [hkey, hslot]
        | some slot =>
          obtain ⟨value, attributes, rfl, hvalue⟩ := hstandard.slot_inert hle hkey hslot
          cases value with
          | ref inner =>
            have hfunction : h.isFunction inner = true := by
              simpa [isObject] using hvalue
            simp [hkey, hslot, hfunction]
          | _ => simp [hkey, hslot]

/-- The prototype of all objects keeps its own: it has none. -/
theorem Standard.assign_root_proto (hstandard : h.Standard) :
    (h ++ [HeapObject.empty]).assign objectPrototype (js "__proto__") (.ref h.length) = none := by
  obtain ⟨root, hroot, hrooted⟩ := hstandard.append [HeapObject.empty] objectPrototype (Nat.zero_le _)
  have hnone : root.proto = none := hrooted.proto
  have hkind : root.kind = .rooted := hrooted.kind
  have hslot : (h ++ [HeapObject.empty]).slot objectPrototype (js "__proto__") = some .proto :=
    (hstandard.append _).slot_proto (Nat.zero_le _)
  simp only [assign, hroot, Option.bind_eq_bind, Option.bind_some, hslot, setPrototype, hnone, hkind,
    if_true, if_neg (Option.some_ne_none h.length).symm, ite_self]

/-! ## Outside -/

theorem eq_of_unchanged (hstandard : h.Standard) {keys : List JsString} {address : ℕ}
    (hle : address ≤ booleanPrototype) (hkept : h.Unchanged value address keys) :
    ∀ h' ∈ (setOutside value h address keys).1, h' = h := by
  induction keys generalizing address with
  | nil => exact fun h' hmem => absurd hmem List.not_mem_nil
  | cons key keys ih =>
    cases keys with
    | nil =>
      intro h' hmem
      rw [setOutside] at hmem
      split at hmem
      · exact absurd hmem List.not_mem_nil
      · obtain rfl := List.mem_singleton.1 hmem
        exact hkept _ ‹_›
    | cons next keys =>
      have hobject := hstandard.objectAt_eq hle key
      rw [Unchanged] at hkept
      rw [setOutside]
      by_cases hkey : key = js "__proto__"
      · subst hkey
        rw [if_pos rfl] at hkept
        by_cases hzero : address = objectPrototype
        · subst hzero
          rw [hobject, if_neg fun h => h.2 rfl, hstandard.assign_root_proto]
          exact fun h' hmem => absurd hmem List.not_mem_nil
        · rw [hobject, if_pos ⟨rfl, hzero⟩]
          exact ih (Nat.zero_le _) (hkept.resolve_left hzero)
      · rw [if_neg hkey] at hkept
        rw [hobject, if_neg fun h => hkey h.1,
          (hstandard.assign_fresh_eq_none_iff hle hkey).2 hkept]
        exact fun h' hmem => absurd hmem List.not_mem_nil

theorem unchanged_of_prefix (hstandard : h.Standard) {base : Heap} (hbase : base <+: h)
    (hlt : booleanPrototype < base.length) {keys : List JsString} {address : ℕ}
    (hle : address ≤ booleanPrototype)
    (hkept : ∀ h' ∈ (setOutside value h address keys).1, base <+: h') :
    h.Unchanged value address keys := by
  induction keys generalizing address with
  | nil => trivial
  | cons key keys ih =>
    cases keys with
    | nil =>
      intro h' hassign
      have hrun : (setOutside value h address [key]).1 = [h'] := by
        rw [setOutside, hassign]
      have hprefix : base <+: h' := hkept h' (hrun ▸ List.mem_singleton_self h')
      exact (prefix_assign_iff hbase (lt_of_le_of_lt hle hlt) hassign).1 hprefix
    | cons next keys =>
      have hobject := hstandard.objectAt_eq hle key
      rw [setOutside] at hkept
      rw [Unchanged]
      by_cases hkey : key = js "__proto__"
      · subst hkey
        rw [if_pos rfl]
        by_cases hzero : address = objectPrototype
        · exact .inl hzero
        · rw [hobject, if_pos ⟨rfl, hzero⟩] at hkept
          exact .inr (ih (Nat.zero_le _) hkept)
      · rw [if_neg hkey]
        rw [hobject, if_neg fun h => hkey h.1] at hkept
        cases hassign : (h ++ [HeapObject.empty]).assign address key (.ref h.length) with
        | none => exact (hstandard.assign_fresh_eq_none_iff hle hkey).1 hassign
        | some h' =>
          rw [hassign] at hkept
          have hprefix : base <+: h' := hkept h' List.mem_cons_self
          exact absurd hprefix (hstandard.not_prefix_assign_fresh hle hkey hbase
            (lt_of_le_of_lt hle hlt) hassign)

/-! ## The walk over a value -/

theorem setNestedValue_eq (hstandard : h.Standard)
    {base : JsValue} {keys : List JsString}
    (hkept : ∀ proto rest, h.escape base keys = some (proto, rest) →
      h.Unchanged value proto rest) :
    ∀ h' ∈ (h.setNestedValue value base keys).1, h' = h := by
  induction keys generalizing base with
  | nil => exact fun h' hmem => absurd hmem List.not_mem_nil
  | cons key keys ih =>
    cases keys with
    | nil => exact fun h' hmem => absurd hmem List.not_mem_nil
    | cons next keys =>
      rw [setNestedValue]
      rw [escape] at hkept
      cases hown : ownObject base key with
      | some inner =>
        rw [hown] at hkept
        exact ih hkept
      | none =>
        rw [hown] at hkept
        dsimp only at hkept ⊢
        rw [hstandard.inheritedObject_eq]
        by_cases hkey : key = js "__proto__" ∧ ownValue base key = none
        · rw [if_pos hkey] at hkept ⊢
          cases hproto : protoOf base with
          | none =>
            have hwrite : h.write base key (.obj none []) = none := by
              cases base <;> first | rfl | cases hproto
            rw [hwrite]
            exact fun h' hmem => absurd hmem List.not_mem_nil
          | some proto =>
            rw [hproto] at hkept
            exact eq_of_unchanged hstandard (protoOf_le hproto) (hkept proto _ rfl)
        · rw [if_neg hkey] at hkept ⊢
          cases hwrite : h.write base key (.obj none []) with
          | none => exact fun h' hmem => absurd hmem List.not_mem_nil
          | some written =>
            rw [hwrite, if_neg (by simp)] at hkept
            exact ih hkept

theorem unchanged_of_setNestedValue (hstandard : h.Standard) {base : Heap} (hbase : base <+: h)
    (hlt : booleanPrototype < base.length) {tree : JsValue} {keys : List JsString}
    (hkept : ∀ h' ∈ (h.setNestedValue value tree keys).1, base <+: h') :
    ∀ proto rest, h.escape tree keys = some (proto, rest) → h.Unchanged value proto rest := by
  induction keys generalizing tree with
  | nil => exact fun proto rest hescape => nomatch hescape
  | cons key keys ih =>
    cases keys with
    | nil => exact fun proto rest hescape => nomatch hescape
    | cons next keys =>
      intro proto rest hescape
      rw [setNestedValue] at hkept
      rw [escape] at hescape
      cases hown : ownObject tree key with
      | some inner =>
        rw [hown] at hkept hescape
        exact ih hkept proto rest hescape
      | none =>
        rw [hown] at hkept hescape
        dsimp only at hkept hescape
        rw [hstandard.inheritedObject_eq] at hkept
        by_cases hkey : key = js "__proto__" ∧ ownValue tree key = none
        · rw [if_pos hkey] at hkept hescape
          obtain ⟨proto, hproto, heq⟩ := Option.map_eq_some_iff.1 hescape
          obtain ⟨rfl, rfl⟩ := Prod.mk.inj heq
          rw [hproto] at hkept
          exact unchanged_of_prefix hstandard hbase hlt (protoOf_le hproto) hkept
        · rw [if_neg hkey] at hkept hescape
          cases hwrite : h.write tree key (.obj none []) with
          | none =>
            rw [hwrite, if_pos rfl] at hescape
            cases hescape
          | some written =>
            rw [hwrite, if_neg (by simp)] at hescape
            rw [hwrite] at hkept
            exact ih hkept proto rest hescape

/-! ## The mask -/
/-! ## The mask -/

variable {data : Val} {existing : Fields}

theorem applyField_eq (resource : Resource) (hstandard : h.Standard) {updates : Fields} {field : JsString}
    (hinside : h.FieldInside data existing updates field) :
    ∀ h' ∈ (h.applyField resource data existing updates field).1, h' = h := by
  intro h' hmem
  unfold applyField at hmem
  unfold FieldInside at hinside
  generalize cut 0x2E field = parts at hmem hinside
  obtain ⟨topField, _ | subField⟩ := parts
  · dsimp only at hmem
    split at hmem
    · exact absurd hmem List.not_mem_nil
    · exact absurd hmem List.not_mem_nil
  · dsimp only [applyNestedSubUpdate] at hmem
    cases hbase : (h.baseText topField existing updates).bind parseBase with
    | none =>
      rw [hbase] at hmem
      exact absurd hmem List.not_mem_nil
    | some base =>
      rw [hbase] at hmem
      exact setNestedValue_eq hstandard (hinside subField rfl base hbase) h' hmem

theorem fieldInside_of_prefix (resource : Resource) (hstandard : h.Standard) {base : Heap} (hbase : base <+: h)
    (hlt : booleanPrototype < base.length) {updates : Fields} {field : JsString}
    (hkept : ∀ h' ∈ (h.applyField resource data existing updates field).1, base <+: h') :
    h.FieldInside data existing updates field := by
  intro subField hsub tree htree
  unfold applyField at hkept
  generalize cut 0x2E field = parts at hkept hsub htree ⊢
  obtain ⟨topField, _ | _⟩ := parts
  · cases hsub
  · obtain rfl := Option.some.inj hsub
    dsimp only [applyNestedSubUpdate] at hkept
    rw [htree] at hkept
    exact unchanged_of_setNestedValue hstandard hbase hlt hkept

variable {resource : Resource}

/-- The next entry begins with the heap that there was. -/
theorem getLast_eq {heaps : List Heap} (heaps_eq : ∀ h' ∈ heaps, h' = h) :
    heaps.getLast?.getD h = h := by
  cases hlast : heaps.getLast? with
  | none => rfl
  | some last => exact heaps_eq last (List.mem_of_getLast? hlast)

theorem applyFields_eq (hstandard : h.Standard) {fields : List JsString} {updates : Fields}
    (hinside : h.Inside resource data existing fields updates) :
    ∀ h' ∈ (applyFields resource data existing h fields updates).1, h' = h := by
  induction fields generalizing updates with
  | nil => exact fun h' hmem => absurd hmem List.not_mem_nil
  | cons field fields ih =>
    obtain ⟨hfield, hrest⟩ := hinside
    have hfirst := applyField_eq resource hstandard hfield
    intro h' hmem
    rw [applyFields] at hmem
    rcases hrun : h.applyField resource data existing updates field with ⟨heaps, _ | updates'⟩
    · rw [hrun] at hmem hfirst
      exact hfirst h' hmem
    · rw [hrun] at hmem hfirst hrest
      dsimp only at hmem
      rw [getLast_eq hfirst] at hmem
      rcases List.mem_append.1 hmem with hmem | hmem
      · exact hfirst h' hmem
      · exact ih (hrest updates' rfl) h' hmem

theorem inside_of_prefix (hstandard : h.Standard) {base : Heap} (hbase : base <+: h)
    (hlt : booleanPrototype < base.length) {fields : List JsString} {updates : Fields}
    (hkept : ∀ h' ∈ (applyFields resource data existing h fields updates).1, base <+: h') :
    h.Inside resource data existing fields updates := by
  induction fields generalizing updates with
  | nil => trivial
  | cons field fields ih =>
    rw [applyFields] at hkept
    rcases hrun : h.applyField resource data existing updates field with ⟨heaps, _ | updates'⟩
    · rw [hrun] at hkept
      have hfield : h.FieldInside data existing updates field :=
        fieldInside_of_prefix resource hstandard hbase hlt (by rwa [hrun])
      exact ⟨hfield, by rw [hrun]; exact fun _ h => nomatch h⟩
    · rw [hrun] at hkept
      dsimp only at hkept
      obtain ⟨hheaps, hlater⟩ := List.forall_mem_append.1 hkept
      have hfield : h.FieldInside data existing updates field :=
        fieldInside_of_prefix resource hstandard hbase hlt (by rwa [hrun])
      have hfirst := applyField_eq resource hstandard hfield
      rw [hrun] at hfirst
      rw [getLast_eq hfirst] at hlater
      refine ⟨hfield, ?_⟩
      rw [hrun]
      intro next hnext
      obtain rfl := Option.some.inj hnext
      exact ih hlater

theorem orEmpty_prefix (value : Option Val) : ∃ extra, (h.orEmpty value).1 = h ++ extra := by
  unfold orEmpty
  split
  · exact ⟨[HeapObject.empty], rfl⟩
  · exact ⟨[HeapObject.empty], rfl⟩
  · exact ⟨[HeapObject.empty], rfl⟩
  · exact ⟨[], (List.append_nil h).symm⟩

/-- **Nested writes.** An update leaves every object there was as it was, if and only if no entry of
its mask leaves the value that it is about for a shared prototype, or what it writes there is
refused or was there. -/
theorem executeUpdate_prefix_iff (hstandard : h.Standard) (resource : Resource) (body : Val)
    (record : Option Fields) :
    (∀ h' ∈ h.executeUpdate resource body record, h <+: h') ↔
      h.UpdateInside resource body record := by
  obtain ⟨extra, hextra⟩ : ∃ extra, (h.requestData resource body).1 = h ++ extra :=
    orEmpty_prefix _
  have hdata : (h.requestData resource body).1.Standard := hextra ▸ hstandard.append extra
  have hprefix : h <+: (h.requestData resource body).1 := ⟨extra, hextra.symm⟩
  constructor
  · intro hkept
    exact inside_of_prefix hdata hprefix hstandard.lt_length hkept
  · intro hinside h' hmem
    rw [applyFields_eq hdata hinside h' hmem]
    exact hprefix

/-! ## Sample requests -/

/-- The functions of an object of the language. -/
def methods (names : List JsString) : List (JsString × Slot) :=
  names.map fun name => (name, .data (.ref 5) .hidden)

/-- The prototypes, with one function for all those that they have. -/
def standardHeap : Heap :=
  [ ⟨.rooted, none, ("__proto__", .proto) :: methods ["constructor", "hasOwnProperty", "toString"]⟩,
    ⟨.array, some objectPrototype,
      ("length", .data (.num 0) .hidden) :: methods ["constructor", "map", "toString"]⟩,
    ⟨.ordinary, some objectPrototype,
      ("length", .data (.num 0) .readOnly) :: methods ["constructor", "trim", "toString"]⟩,
    ⟨.ordinary, some objectPrototype, methods ["constructor", "toFixed", "toString"]⟩,
    ⟨.ordinary, some objectPrototype, methods ["constructor", "toString"]⟩,
    ⟨.function, some objectPrototype, []⟩ ]

/-- A request to update labels. -/
def labelsRequest (mask : JsString) : Heap :=
  standardHeap ++
    [ ⟨.ordinary, some objectPrototype, [("team", .data (.str "a") .plain)]⟩,
      ⟨.ordinary, some objectPrototype, [("labels", .data (.ref 6) .plain)]⟩,
      ⟨.ordinary, some objectPrototype,
        [("subscription", .data (.ref 7) .plain), ("updateMask", .data (.str mask) .plain)]⟩ ]

/-- The properties of an object, as far as they are functions or primitive values. -/
theorem inert_of_all {object : HeapObject}
    (hall : object.slots.all (fun entry => entry.1 = js "__proto__" || match entry.2 with
      | .data value _ => !h.isObject value
      | .proto => false) = true) :
    ∀ name ≠ js "__proto__", ∀ slot, object.slots.lookup name = some slot →
      ∃ value attributes, slot = .data value attributes ∧ h.isObject value = false := by
  intro name hname slot hslot
  obtain ⟨before, after, hslots, -⟩ := List.lookup_eq_some_iff.1 hslot
  have hmem : (name, slot) ∈ object.slots := by
    rw [hslots]
    exact List.mem_append_right _ List.mem_cons_self
  have hentry := List.all_eq_true.1 hall _ hmem
  cases slot with
  | proto => simp [hname] at hentry
  | data value attributes =>
    refine ⟨value, attributes, rfl, ?_⟩
    simpa [hname] using hentry

theorem standardHeap_standard : standardHeap.Standard := by
  intro address hle
  have hcases : address = 0 ∨ address = 1 ∨ address = 2 ∨ address = 3 ∨ address = 4 := by
    simp only [booleanPrototype] at hle
    omega
  rcases hcases with rfl | rfl | rfl | rfl | rfl
  · exact ⟨_, rfl, rfl, rfl, rfl, inert_of_all (by decide +kernel)⟩
  · exact ⟨_, rfl, rfl, rfl, rfl, inert_of_all (by decide +kernel)⟩
  · exact ⟨_, rfl, rfl, rfl, rfl, inert_of_all (by decide +kernel)⟩
  · exact ⟨_, rfl, rfl, rfl, rfl, inert_of_all (by decide +kernel)⟩
  · exact ⟨_, rfl, rfl, rfl, rfl, inert_of_all (by decide +kernel)⟩

theorem updateInside_label :
    (labelsRequest "labels.team").UpdateInside .subscription (.ref 8) (some []) := by
  have hfields : (labelsRequest "labels.team").requestFields (.ref 8) (some []) =
      ([js "labels.team"], []) := rfl
  rw [UpdateInside, hfields]
  refine ⟨fun subField hsub base _ proto keys hescape => ?_, fun _ _ => trivial⟩
  have hcut : (cut 0x2E (js "labels.team")).2 = some (js "team") := by decide +kernel
  obtain rfl := Option.some.inj (hcut.symm.trans hsub)
  have hsplit : splitUnit 0x2E (js "team") = [js "team"] := by decide +kernel
  rw [hsplit] at hescape
  cases hescape

theorem executeUpdate_prefix_iff_label :
    (labelsRequest "labels.team").UpdateInside .subscription (.ref 8) (some []) ∧
      ∀ h' ∈ (labelsRequest "labels.team").executeUpdate .subscription (.ref 8) (some []),
        labelsRequest "labels.team" <+: h' :=
  ⟨updateInside_label, (executeUpdate_prefix_iff (standardHeap_standard.append _) .subscription
    (.ref 8) (some [])).2 updateInside_label⟩

/-- A mask that goes through `__proto__` gives every object a property. -/
theorem not_executeUpdate_prefix :
    ¬∀ h' ∈ (labelsRequest "labels.__proto__.x").executeUpdate .subscription (.ref 8) (some []),
      labelsRequest "labels.__proto__.x" <+: h' := by
  intro hkept
  have hpolluted : ((labelsRequest "labels.__proto__.x").executeUpdate .subscription (.ref 8)
      (some [])).any (fun h' => (h'.slot objectPrototype (js "x")).isSome) = true := by
    decide +kernel
  obtain ⟨h', hmem, hslot⟩ := List.any_eq_true.1 hpolluted
  obtain ⟨extra, rfl⟩ := hkept h' hmem
  have hstandard : (labelsRequest "labels.__proto__.x").Standard := standardHeap_standard.append _
  have hle : objectPrototype ≤ booleanPrototype := Nat.zero_le _
  rw [hstandard.slot_append hle] at hslot
  exact absurd hslot (by decide +kernel)

end Heap

end Kinglet.Pubsub
