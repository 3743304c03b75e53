import Kinglet.Pubsub.UpdateMask

/-!
# Objects and their prototypes

An object has properties of its own and a link to its prototype, whose properties it inherits. The
prototypes of the language are objects that the whole process shares. A read goes up the links; a
write is to the object itself, but for `__proto__`, whose setter moves the link.
-/

namespace Kinglet.Pubsub

open Js

/-! ## Heaps -/

/-- A value of a variable: an object by its address. -/
inductive Val
  | undefined
  | null
  | bool (b : Bool)
  | num (x : Float)
  | str (s : JsString)
  | ref (address : ℕ)

/-- Assigned properties show in JSON, those of the language do not, and some cannot be written. -/
inductive Attributes
  | plain
  | hidden
  | readOnly
  deriving DecidableEq

/-- A property: a value, or the accessor `__proto__`. -/
inductive Slot
  | data (value : Val) (attributes : Attributes)
  | proto

/-- The prototype of a rooted object is fixed. -/
inductive ObjectKind
  | ordinary
  | array
  | function
  | rooted
  deriving DecidableEq

structure HeapObject where
  kind : ObjectKind
  proto : Option ℕ
  slots : List (JsString × Slot)

/-- The objects by address. -/
abbrev Heap := List HeapObject

def objectPrototype : ℕ := 0
def arrayPrototype : ℕ := 1
def stringPrototype : ℕ := 2
def numberPrototype : ℕ := 3
def booleanPrototype : ℕ := 4

/-- `{}`. -/
def HeapObject.empty : HeapObject := ⟨.ordinary, some objectPrototype, []⟩

namespace Heap

variable (h : Heap)

/-- The property of a name along the links. -/
def find (name : JsString) : ℕ → ℕ → Option Slot
  | 0, _ => none
  | fuel + 1, address =>
      match h[address]? with
      | none => none
      | some object =>
          match object.slots.lookup name with
          | some slot => some slot
          | none => object.proto.bind (find name fuel)

/-- The property an object has or inherits; no link leads back. -/
def slot (address : ℕ) (name : JsString) : Option Slot := h.find name h.length address

def isFunction (address : ℕ) : Bool := h[address]?.any fun object => object.kind = .function

/-- `typeof value === 'object'` of a value that is not `null`. -/
def isObject : Val → Bool
  | .ref address => !h.isFunction address
  | _ => false

/-- `Object.getPrototypeOf`. -/
def protoValue (address : ℕ) : Val :=
  match h[address]?.bind HeapObject.proto with
  | some proto => .ref proto
  | none => .null

/-- A property that a primitive value inherits from its prototype. -/
def inherited (proto : ℕ) (name : JsString) : Val :=
  match h.slot proto name with
  | none => .undefined
  | some (.data value _) => value
  | some .proto => .ref proto

/-- `value[name]`, `none` when it throws. -/
def get (value : Val) (name : JsString) : Option Val :=
  match value with
  | .undefined | .null => none
  | .bool _ => some (h.inherited booleanPrototype name)
  | .num _ => some (h.inherited numberPrototype name)
  | .str s =>
      if name = "length" then some (.num (natNumber s.length))
      else
        match ownProperty (.str s) name with
        | some (.str u) => some (.str u)
        | _ => some (h.inherited stringPrototype name)
  | .ref address =>
      match h.slot address name with
      | none => some .undefined
      | some (.data value _) => some value
      | some .proto => some (h.protoValue address)

/-- The object that a read of a property returns. -/
def objectAt (address : ℕ) (name : JsString) : Option ℕ :=
  match h.get (.ref address) name with
  | some (.ref inner) => if h.isFunction inner then none else some inner
  | _ => none

/-- `array.length`. -/
def arrayLength (slots : List (JsString × Slot)) : ℕ :=
  match slots.lookup (js "length") with
  | some (.data (.num x) _) => (arrayIndex x 4294967296).getD 0
  | _ => 0

/-- The value as one of JSON: functions are left out as `undefined` is. What comes from JSON has no
cycles. -/
def tree : ℕ → Val → JsValue
  | _, .undefined => .undefined
  | _, .null => .null
  | _, .bool b => .bool b
  | _, .num x => .num x
  | _, .str s => .str s
  | 0, .ref _ => .undefined
  | fuel + 1, .ref address =>
      match h[address]? with
      | none | some ⟨.function, _, _⟩ => .undefined
      | some ⟨.array, _, slots⟩ =>
          .arr (some address) ((List.range (arrayLength slots)).map fun i =>
            match slots.lookup (decimal i) with
            | some (.data value _) => tree fuel value
            | _ => .undefined)
      | some ⟨_, _, slots⟩ =>
          .obj (some address) (slots.filterMap fun (name, slot) =>
            match slot with
            | .data value .plain => some (name, tree fuel value)
            | _ => none)

def toTree (value : Val) : JsValue := h.tree h.length value

/-- Whether the links lead from one object to another. -/
def leadsTo (target : ℕ) : ℕ → ℕ → Bool
  | 0, _ => false
  | fuel + 1, address =>
      address = target || (h[address]?.bind HeapObject.proto).any (leadsTo target fuel)

/-- The setter of `__proto__`, `none` when it throws: values other than objects are ignored. -/
def setPrototype (address : ℕ) (value : Val) : Option Heap := do
  let object ← h[address]?
  let change := fun proto : Option ℕ =>
    if object.proto = proto then some h
    else if object.kind = .rooted then none
    else some (h.set address { object with proto })
  match value with
  | .ref proto =>
      if object.proto ≠ some proto ∧ h.leadsTo address h.length proto then none
      else change (some proto)
  | .null => change none
  | _ => some h

/-- The slots of an array of another length. -/
def withLength (length : ℕ) (slots : List (JsString × Slot)) : List (JsString × Slot) :=
  setField "length" (.data (.num (natNumber length)) .hidden)
    (slots.filter fun (name, _) => !(isIndexName name && length ≤ digitsValue name))

/-- The slots of an object after a write to a property of its own. -/
def writtenSlots (object : HeapObject) (name : JsString) (value : Val) : List (JsString × Slot) :=
  let attributes := match object.slots.lookup name with
    | some (.data _ attributes) => attributes
    | _ => .plain
  let slots := setField name (.data value attributes) object.slots
  if object.kind = .array ∧ isIndexName name ∧ arrayLength slots ≤ digitsValue name then
    withLength (digitsValue name + 1) slots
  else slots

/-- `object[name] = value` in strict mode, `none` when it throws. -/
def assign (address : ℕ) (name : JsString) (value : Val) : Option Heap := do
  let object ← h[address]?
  match h.slot address name with
  | some .proto => h.setPrototype address value
  | some (.data _ .readOnly) => none
  | _ =>
      if object.kind = .array ∧ name = "length" then
        let length ← lengthNumber (h.toTree value)
        some (h.set address { object with slots := withLength length object.slots })
      else some (h.set address { object with slots := writtenSlots object name value })

/-! ## Writes -/

variable {h}

theorem isFunction_append {address : ℕ} (hlt : address < h.length) (extra : Heap) :
    (h ++ extra).isFunction address = h.isFunction address := by
  rw [isFunction, isFunction, List.getElem?_append_left hlt]

theorem isFunction_of_length_le {address : ℕ} (hle : h.length ≤ address) :
    h.isFunction address = false := by
  rw [isFunction, List.getElem?_eq_none hle]
  rfl

theorem setPrototype_eq_set {address : ℕ} {value : Val} {h' : Heap}
    (hset : h.setPrototype address value = some h') : ∃ object, h' = h.set address object := by
  simp only [setPrototype, Option.bind_eq_bind, Option.bind_eq_some_iff] at hset
  obtain ⟨object, hobject, hset⟩ := hset
  have hself : h = h.set address object := by
    obtain ⟨hlt, rfl⟩ := List.getElem?_eq_some_iff.1 hobject
    exact (List.set_getElem_self hlt).symm
  have hchange : ∀ proto : Option ℕ, (if object.proto = proto then some h
      else if object.kind = .rooted then none
      else some (h.set address { object with proto })) = some h' →
      ∃ object, h' = h.set address object := by
    intro proto hchange
    split at hchange
    · obtain rfl := Option.some.inj hchange
      exact ⟨object, hself⟩
    · split at hchange
      · cases hchange
      · obtain rfl := Option.some.inj hchange
        exact ⟨_, rfl⟩
  split at hset
  · split at hset
    · cases hset
    · exact hchange _ hset
  · exact hchange _ hset
  · obtain rfl := Option.some.inj hset
    exact ⟨object, hself⟩

/-- A write is to one object. -/
theorem assign_eq_set {address : ℕ} {name : JsString} {value : Val} {h' : Heap}
    (hassign : h.assign address name value = some h') : ∃ object, h' = h.set address object := by
  simp only [assign, Option.bind_eq_bind, Option.bind_eq_some_iff] at hassign
  obtain ⟨object, -, hassign⟩ := hassign
  split at hassign
  · exact setPrototype_eq_set hassign
  · cases hassign
  · split at hassign
    · obtain ⟨length, -, hassign⟩ := Option.bind_eq_some_iff.1 hassign
      obtain rfl := Option.some.inj hassign
      exact ⟨_, rfl⟩
    · obtain rfl := Option.some.inj hassign
      exact ⟨_, rfl⟩

theorem lookup_filter (keep : JsString → Bool) {slots : List (JsString × Slot)} {name : JsString}
    (hname : keep name = true) :
    (slots.filter fun entry => keep entry.1).lookup name = slots.lookup name := by
  induction slots with
  | nil => rfl
  | cons entry slots ih =>
      obtain ⟨key, slot⟩ := entry
      by_cases hkey : name = key
      · subst hkey
        simp [hname]
      · rw [List.lookup_cons, beq_false_of_ne hkey, List.filter_cons]
        split
        · rw [List.lookup_cons, beq_false_of_ne hkey]
          exact ih
        · exact ih

theorem lookup_writtenSlots {object : HeapObject} {name : JsString} (value : Val)
    (hlength : ¬(object.kind = .array ∧ name = js "length")) :
    ∃ attributes,
      (writtenSlots object name value).lookup name = some (.data value attributes) := by
  unfold writtenSlots
  generalize (match object.slots.lookup name with
    | some (.data _ attributes) => attributes
    | _ => Attributes.plain) = attributes
  have hset : (setField name (Slot.data value attributes) object.slots).lookup name =
      some (.data value attributes) := by
    rw [lookup_setField, if_pos rfl]
  refine ⟨attributes, ?_⟩
  dsimp only
  split
  · -- the length grows past the index written
    rename_i hindex
    have hne : name ≠ js "length" := fun heq => hlength ⟨hindex.1, heq⟩
    rw [withLength, lookup_setField, if_neg hne, ← hset]
    exact lookup_filter
      (fun key => !(isIndexName key && digitsValue name + 1 ≤ digitsValue key)) (by simp)
  · exact hset

/-- What is written under a name, other than `__proto__` and the length of an array, is there. -/
theorem lookup_assign {address : ℕ} {name : JsString} {value : Val} {h' : Heap}
    {object : HeapObject} (hobject : h[address]? = some object)
    (hslot : h.slot address name ≠ some .proto)
    (hlength : ¬(object.kind = .array ∧ name = js "length"))
    (hassign : h.assign address name value = some h') :
    ∃ object' attributes, h'[address]? = some object' ∧
      object'.slots.lookup name = some (.data value attributes) := by
  have hlt : address < h.length := (List.getElem?_eq_some_iff.1 hobject).1
  obtain ⟨attributes, hlookup⟩ := lookup_writtenSlots value hlength
  simp only [assign, hobject, Option.bind_eq_bind, Option.bind_some] at hassign
  split at hassign
  · exact absurd ‹_› hslot
  · cases hassign
  · rw [if_neg hlength] at hassign
    obtain rfl := Option.some.inj hassign
    exact ⟨_, attributes, by rw [List.getElem?_set_self hlt], hlookup⟩

/-! ## The objects of the language -/

/-- An object of the language that a value inherits from: what it has is no object of JSON but for
its own prototype, which is the one that all of them share. -/
structure IsPrototype (h : Heap) (address : ℕ) (object : HeapObject) : Prop where
  kind : object.kind = if address = objectPrototype then .rooted
    else if address = arrayPrototype then .array else .ordinary
  proto : object.proto = if address = objectPrototype then none else some objectPrototype
  accessor : object.slots.lookup (js "__proto__") =
    if address = objectPrototype then some .proto else none
  inert : ∀ name ≠ js "__proto__", ∀ slot, object.slots.lookup name = some slot →
    ∃ value attributes, slot = .data value attributes ∧ h.isObject value = false

/-- The prototypes are as the language makes them. -/
def Standard (h : Heap) : Prop :=
  ∀ address ≤ booleanPrototype, ∃ object, h[address]? = some object ∧ h.IsPrototype address object

theorem isObject_append {value : Val} (hvalue : h.isObject value = false) (extra : Heap) :
    (h ++ extra).isObject value = false := by
  cases value with
  | ref address =>
      have hfunction : h.isFunction address = true := by
        simpa [isObject] using hvalue
      have hlt : address < h.length := by
        by_contra hle
        rw [isFunction_of_length_le (not_lt.1 hle)] at hfunction
        cases hfunction
      rw [isObject, isFunction_append hlt, hfunction]
      rfl
  | _ => rfl

theorem Standard.append (hstandard : h.Standard) (extra : Heap) : (h ++ extra).Standard := by
  intro address hle
  obtain ⟨object, hobject, hproto⟩ := hstandard address hle
  refine ⟨object, ?_, hproto.kind, hproto.proto, hproto.accessor, fun name hname slot hslot => ?_⟩
  · rw [List.getElem?_append_left (List.getElem?_eq_some_iff.1 hobject).1, hobject]
  · obtain ⟨value, attributes, rfl, hvalue⟩ := hproto.inert name hname slot hslot
    exact ⟨value, attributes, rfl, isObject_append hvalue extra⟩

theorem Standard.lt_length (hstandard : h.Standard) : booleanPrototype < h.length := by
  obtain ⟨object, hobject, -⟩ := hstandard booleanPrototype le_rfl
  exact (List.getElem?_eq_some_iff.1 hobject).1

/-- The property of a prototype is its own or one of the prototype of all objects. -/
theorem Standard.slot_eq (hstandard : h.Standard) {address : ℕ} (hle : address ≤ booleanPrototype)
    (name : JsString) :
    h.slot address name = ((h[address]?.bind fun object => object.slots.lookup name).or
      (h[objectPrototype]?.bind fun object => object.slots.lookup name)) := by
  obtain ⟨object, hobject, hproto⟩ := hstandard address hle
  obtain ⟨root, hroot, hrooted⟩ := hstandard objectPrototype (Nat.zero_le _)
  have hfind : ∀ fuel, find h name (fuel + 1) objectPrototype = root.slots.lookup name := by
    intro fuel
    have hnone : root.proto = none := hrooted.proto
    rw [find, hroot]
    dsimp only
    rw [hnone]
    cases root.slots.lookup name <;> rfl
  obtain ⟨fuel, hfuel⟩ : ∃ fuel, h.length = fuel + 1 + 1 :=
    ⟨h.length - 2, by have := hstandard.lt_length; simp only [booleanPrototype] at this; omega⟩
  rw [slot, hfuel, hobject, hroot, Option.bind_some, Option.bind_some]
  by_cases hzero : address = objectPrototype
  · subst hzero
    rw [hfind, Option.some.inj (hobject.symm.trans hroot), Option.or_self]
  · have hlink : object.proto = some objectPrototype := by rw [hproto.proto, if_neg hzero]
    rw [find, hobject]
    dsimp only
    rw [hlink]
    cases object.slots.lookup name with
    | some own => rfl
    | none => exact hfind fuel

theorem Standard.slot_append (hstandard : h.Standard) {address : ℕ}
    (hle : address ≤ booleanPrototype) (name : JsString) (extra : Heap) :
    (h ++ extra).slot address name = h.slot address name := by
  have hlt : address < h.length := lt_of_le_of_lt hle hstandard.lt_length
  have hroot : objectPrototype < h.length :=
    lt_of_le_of_lt (Nat.zero_le _) hstandard.lt_length
  rw [hstandard.slot_eq hle, (hstandard.append extra).slot_eq hle,
    List.getElem?_append_left hlt, List.getElem?_append_left hroot]

theorem Standard.slot_proto (hstandard : h.Standard) {address : ℕ}
    (hle : address ≤ booleanPrototype) : h.slot address (js "__proto__") = some .proto := by
  obtain ⟨object, hobject, hproto⟩ := hstandard address hle
  obtain ⟨root, hroot, hrooted⟩ := hstandard objectPrototype (Nat.zero_le _)
  rw [hstandard.slot_eq hle, hobject, hroot, Option.bind_some, Option.bind_some, hproto.accessor,
    hrooted.accessor]
  by_cases hzero : address = objectPrototype
  · rw [if_pos hzero]
    rfl
  · rw [if_neg hzero]
    rfl

/-- A property of another name is a function or a primitive value. -/
theorem Standard.slot_inert (hstandard : h.Standard) {address : ℕ}
    (hle : address ≤ booleanPrototype) {name : JsString} (hname : name ≠ js "__proto__")
    {slot : Slot} (hslot : h.slot address name = some slot) :
    ∃ value attributes, slot = .data value attributes ∧ h.isObject value = false := by
  obtain ⟨object, hobject, hproto⟩ := hstandard address hle
  obtain ⟨root, hroot, hrooted⟩ := hstandard objectPrototype (Nat.zero_le _)
  rw [hstandard.slot_eq hle, hobject, hroot, Option.bind_some, Option.bind_some] at hslot
  rcases Option.or_eq_some_iff.1 hslot with hown | ⟨-, hrest⟩
  · exact hproto.inert name hname slot hown
  · exact hrooted.inert name hname slot hrest

/-- A read of a prototype gives an object only under `__proto__`. -/
theorem Standard.objectAt_eq (hstandard : h.Standard) {address : ℕ}
    (hle : address ≤ booleanPrototype) (name : JsString) :
    h.objectAt address name =
      if name = js "__proto__" ∧ address ≠ objectPrototype then some objectPrototype else none := by
  obtain ⟨object, hobject, hproto⟩ := hstandard address hle
  obtain ⟨root, hroot, hrooted⟩ := hstandard objectPrototype (Nat.zero_le _)
  by_cases hname : name = js "__proto__"
  · subst hname
    simp only [objectAt, get, hstandard.slot_proto hle, protoValue, hobject, Option.bind_some,
      hproto.proto]
    by_cases hzero : address = objectPrototype
    · simp [hzero]
    · have hfunction : h.isFunction objectPrototype = false := by
        rw [isFunction, hroot, Option.any_some, hrooted.kind, if_pos rfl]
        rfl
      simp [hzero, hfunction]
  · rw [if_neg fun h => hname h.1]
    simp only [objectAt, get]
    cases hslot : h.slot address name with
    | none => rfl
    | some slot =>
        obtain ⟨value, attributes, rfl, hvalue⟩ := hstandard.slot_inert hle hname hslot
        cases value with
        | ref inner =>
            have hfunction : h.isFunction inner = true := by simpa [isObject] using hvalue
            simp [hfunction]
        | _ => rfl

/-! ## Writes to the objects of the language -/

/-- A write to an object there was shows, unless it writes what was there. -/
theorem prefix_assign_iff {base h' : Heap} {address : ℕ} {name : JsString} {value : Val}
    (hbase : base <+: h) (hlt : address < base.length)
    (hassign : h.assign address name value = some h') : base <+: h' ↔ h' = h := by
  obtain ⟨object, rfl⟩ := assign_eq_set hassign
  constructor
  · intro hkept
    obtain ⟨extra, rfl⟩ := hbase
    obtain ⟨extra', hextra'⟩ := hkept
    have hat : (base ++ extra')[address]? = ((base ++ extra).set address object)[address]? := by
      rw [hextra']
    rw [List.getElem?_append_left hlt,
      List.getElem?_set_self (by rw [List.length_append]; omega)] at hat
    obtain ⟨hlt, rfl⟩ := List.getElem?_eq_some_iff.1 hat
    rw [List.set_append_left _ _ hlt, List.set_getElem_self]
  · intro heq
    rw [heq]
    exact hbase

/-- `address[name] = {}` throws, of a name other than `__proto__`. -/
def Refuses (h : Heap) (address : ℕ) (name : JsString) : Prop :=
  (∃ value, h.slot address name = some (.data value .readOnly)) ∨
    address = arrayPrototype ∧ name = js "length"

theorem lengthNumber_empty (ref : Option ℕ) : lengthNumber (.obj ref []) = none := by
  have htext : toText (.obj ref []) = some (js "[object Object]") := rfl
  have hnumber : textNumber (js "[object Object]") = none := by decide +kernel
  simp only [lengthNumber, htext, Option.bind_some, hnumber, Option.bind_none]

theorem toTree_fresh (h : Heap) :
    (h ++ [HeapObject.empty]).toTree (.ref h.length) = .obj (some h.length) [] := by
  rw [toTree, List.length_append, List.length_singleton, tree, List.getElem?_concat_length]
  rfl

theorem Standard.kind_eq_array_iff (hstandard : h.Standard) {address : ℕ}
    (hle : address ≤ booleanPrototype) {object : HeapObject} (hobject : h[address]? = some object) :
    object.kind = .array ↔ address = arrayPrototype := by
  obtain ⟨object', hobject', hproto⟩ := hstandard address hle
  obtain rfl := Option.some.inj (hobject.symm.trans hobject')
  rw [hproto.kind]
  by_cases hzero : address = objectPrototype
  · subst hzero
    simp [objectPrototype, arrayPrototype]
  · by_cases harray : address = arrayPrototype
    · subst harray
      simp [objectPrototype, arrayPrototype]
    · simp [hzero, harray]

theorem Standard.assign_fresh_eq_none_iff (hstandard : h.Standard) {address : ℕ}
    (hle : address ≤ booleanPrototype) {name : JsString} (hname : name ≠ js "__proto__") :
    (h ++ [HeapObject.empty]).assign address name (.ref h.length) = none ↔ h.Refuses address name := by
  obtain ⟨object, hobject, -⟩ := hstandard address hle
  have hfresh : (h ++ [HeapObject.empty])[address]? = some object := by
    rw [List.getElem?_append_left (List.getElem?_eq_some_iff.1 hobject).1, hobject]
  have harray : object.kind = .array ↔ address = arrayPrototype :=
    hstandard.kind_eq_array_iff hle hobject
  simp only [assign, hfresh, Option.bind_eq_bind, Option.bind_some, Refuses,
    hstandard.slot_append hle, toTree_fresh, lengthNumber_empty, Option.bind_none, harray]
  split
  · obtain ⟨value, attributes, hdata, -⟩ := hstandard.slot_inert hle hname ‹_›
    cases hdata
  · rename_i value hslot
    exact ⟨fun _ => .inl ⟨value, hslot⟩, fun _ => rfl⟩
  · rename_i hproto hreadOnly
    have hno : ¬∃ value, h.slot address name = some (.data value .readOnly) :=
      fun ⟨value, hslot⟩ => hreadOnly value hslot
    by_cases hlength : address = arrayPrototype ∧ name = js "length"
    · exact ⟨fun _ => .inr hlength, fun _ => if_pos hlength⟩
    · rw [if_neg hlength]
      exact ⟨fun h => (nomatch h), fun h => absurd h (not_or.2 ⟨hno, hlength⟩)⟩

theorem Standard.not_prefix_assign_fresh (hstandard : h.Standard) {address : ℕ}
    (hle : address ≤ booleanPrototype) {name : JsString} (hname : name ≠ js "__proto__")
    {base h' : Heap} (hbase : base <+: h) (hlt : address < base.length)
    (hassign : (h ++ [HeapObject.empty]).assign address name (.ref h.length) = some h') : ¬base <+: h' := by
  intro hkept
  obtain ⟨object, hobject, hproto⟩ := hstandard address hle
  have hfresh : (h ++ [HeapObject.empty])[address]? = some object := by
    rw [List.getElem?_append_left (List.getElem?_eq_some_iff.1 hobject).1, hobject]
  have hslot : (h ++ [HeapObject.empty]).slot address name ≠ some .proto := by
    intro hslot
    obtain ⟨value, attributes, hdata, -⟩ := (hstandard.append _).slot_inert hle hname hslot
    cases hdata
  have hlength : ¬(object.kind = .array ∧ name = js "length") := by
    intro harray
    have hrefuses : h.Refuses address name :=
      .inr ⟨(hstandard.kind_eq_array_iff hle hobject).1 harray.1, harray.2⟩
    rw [(hstandard.assign_fresh_eq_none_iff hle hname).2 hrefuses] at hassign
    cases hassign
  obtain ⟨object', attributes, hobject', hlookup⟩ := lookup_assign hfresh hslot hlength hassign
  -- the prototype has the new object, which none of its properties was
  have hsame : object' = object := by
    have hold : base[address]? = some object := by
      obtain ⟨extra, rfl⟩ := hbase
      rwa [List.getElem?_append_left hlt] at hobject
    obtain ⟨extra, rfl⟩ := hkept
    rw [List.getElem?_append_left hlt, hold] at hobject'
    exact (Option.some.inj hobject').symm
  subst hsame
  obtain ⟨value, _, hdata, hinert⟩ := hproto.inert name hname _ hlookup
  obtain ⟨rfl, -⟩ := Slot.data.inj hdata
  rw [isObject, isFunction_of_length_le le_rfl] at hinert
  cases hinert

end Heap

end Kinglet.Pubsub
