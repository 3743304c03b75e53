import Kinglet.Js.Untyped

/-!
# Updates by mask

`updateTopic` and `updateSubscription` turn a mask into an object of columns, whose names SQLite's
`updateById` writes into the statement. An entry with a dot merges one part of a JSON column. The
statements are collected with what they bind.
-/

namespace Kinglet.Pubsub

open Js

/-! ## JSON documents -/

/-- Whether a condition holds of a value. -/
def truthy : JsValue → Bool
  | .undefined | .null => false
  | .bool b => b
  | .num x => !(x == 0 || x.isNaN)
  | .str s => s ≠ []
  | .arr _ _ | .obj _ _ => true

/-- `value ?? fallback`. -/
def orElse (value fallback : JsValue) : JsValue := if isNullish value then fallback else value

/-- `value[name]` of an object, among the properties it has of its own. -/
def member (value : JsValue) (name : JsString) : JsValue :=
  match value with
  | .arr _ elements =>
      if name = "length" then .num (natNumber elements.length)
      else (ownProperty value name).getD .undefined
  | .obj _ fields => (ownField fields name).getD .undefined
  | _ => .undefined

/-- `getNestedValue(obj, segments)`. -/
def getNestedValue : JsValue → List JsString → JsValue
  | value, [] => value
  | value, segment :: segments =>
      match value with
      | .arr _ _ | .obj _ _ => getNestedValue (member value segment) segments
      | _ => .undefined

/-- `ToNumber(value)`, when it is a possible length of an array. -/
def lengthNumber (value : JsValue) : Option ℕ :=
  let number := match value with
    | .undefined => none
    | .null | .bool false => some 0
    | .bool true => some 1
    | .num x => some x
    | .str _ | .arr _ _ | .obj _ _ => (toText value).bind textNumber
  (number.bind fun x => arrayIndex x 4294967296)

/-- `value[name] = assigned` in strict mode, `none` when it throws. Other properties of an array
than its elements and its length do not show in its JSON. -/
def assign (value : JsValue) (name : JsString) (assigned : JsValue) : Option JsValue :=
  match value with
  | .obj ref fields => some (.obj ref (assignField name assigned fields))
  | .arr ref elements =>
      if name = "length" then
        (lengthNumber assigned).map fun length =>
          .arr ref
            ((elements ++ List.replicate (length - elements.length) JsValue.undefined).take length)
      else if isIndexName name then
        let index := digitsValue name
        some (.arr ref
          ((elements ++ List.replicate (index + 1 - elements.length) JsValue.undefined).set index
            assigned))
      else some value
  | _ => none

/-- `setNestedValue(obj, segments, value)`. -/
def setNestedValue : JsValue → List JsString → JsValue → Option JsValue
  | base, [], _ => some base
  | base, [leaf], value => assign base leaf value
  | base, segment :: segments, value => do
      let inner := match member base segment with
        | .arr ref elements => .arr ref elements
        | .obj ref fields => .obj ref fields
        | _ => .obj none []
      let inner ← setNestedValue inner segments value
      assign base segment inner

/-- The names every object inherits; what is there is no text of JSON. -/
def inheritedNames : List JsString :=
  [ "constructor", "__defineGetter__", "__defineSetter__", "hasOwnProperty", "__lookupGetter__",
    "__lookupSetter__", "isPrototypeOf", "propertyIsEnumerable", "toString", "valueOf",
    "__proto__", "toLocaleString" ]

/-- `baseStr ? JSON.parse(baseStr) : {}`. -/
def parseBase (baseStr : JsValue) : Option JsValue :=
  if truthy baseStr then (toText baseStr).bind jsonParse else some (.obj none [])

/-- `topField in updates ? updates[topField] : (existing[topField] ?? null)`, as far as it can be
parsed: the text of an inherited property is no JSON. -/
def baseText (topField : JsString) (existing updates : Fields) : Option JsValue :=
  match ownField updates topField with
  | some value => some value
  | none =>
      if topField ∈ inheritedNames then none
      else some (orElse ((ownField existing topField).getD .undefined) .null)

/-- `applyNestedSubUpdate(topField, subField, incoming, existing, updates)`, which is also
`applyNestedTopicSubUpdate`: the columns updated so far and this one, `none` when it throws. -/
def applyNestedSubUpdate (topField subField : JsString) (incoming : JsValue)
    (existing updates : Fields) : Option Fields := do
  let baseStr ← baseText topField existing updates
  let base ← parseBase baseStr
  let incomingTop := orElse (propOrUndefined incoming topField) (.obj none [])
  let subSegments := splitUnit 0x2E subField
  let base ← setNestedValue base subSegments (getNestedValue incomingTop subSegments)
  return assignField topField (((jsonStringify base).map .str).getD .undefined) updates

/-! ## The fields of a mask -/

/-- What an entry without a dot makes of the value of its field. -/
inductive FieldKind
  | given
  | json
  | flag
  | plain

def FieldKind.update (kind : FieldKind) (value : JsValue) : Option JsValue :=
  match kind with
  | given => if isNullish value then none else some value
  | json =>
      some (if truthy value then ((jsonStringify value).map .str).getD .undefined else .null)
  | flag => some (.num (if truthy value then 1 else 0))
  | plain => some (orElse value .null)

inductive Resource
  | topic
  | subscription

namespace Resource

def table : Resource → JsString
  | topic => "pubsub_topics"
  | subscription => "pubsub_subscriptions"

/-- The field of the request that has the data. -/
def bodyField : Resource → JsString
  | topic => "topic"
  | subscription => "subscription"

/-- The columns that the `switch` names, in its order. -/
def updatable : Resource → List (JsString × FieldKind)
  | topic =>
      [ ("labels", .json),
        ("messageRetentionDuration", .plain),
        ("schemaSettings", .json),
        ("messageStoragePolicy", .json),
        ("ingestionDataSourceSettings", .json) ]
  | subscription =>
      [ ("ackDeadlineSeconds", .given),
        ("labels", .json),
        ("pushConfig", .json),
        ("retainAckedMessages", .flag),
        ("messageRetentionDuration", .plain),
        ("expirationPolicy", .json),
        ("deadLetterPolicy", .json),
        ("retryPolicy", .json),
        ("enableExactlyOnceDelivery", .flag) ]

def columns (resource : Resource) : List JsString := resource.updatable.map Prod.fst

def label : Resource → JsString
  | topic => "Topic"
  | subscription => "Subscription"

end Resource

/-- `updateMask.split(',').map(f => f.trim())`, if there is a mask; `none` when it is no string. -/
def maskFields (body : JsValue) : Option (List JsString) :=
  match propOrUndefined body "updateMask" with
  | .str mask => some (if mask = [] then [] else (splitUnit 0x2C mask).map trim)
  | mask => if truthy mask then none else some []

/-- One turn of the loop over the fields. -/
def applyField (resource : Resource) (data : JsValue) (existing updates : Fields)
    (field : JsString) : Option Fields :=
  match cut 0x2E field with
  | (topField, some subField) => applyNestedSubUpdate topField subField data existing updates
  | (_, none) =>
      match (resource.updatable.lookup field).bind fun kind =>
          kind.update (propOrUndefined data field) with
      | none => some updates
      | some value => some (setField field value updates)

/-! ## Statements -/

inductive SqlParam
  | null
  | text (s : JsString)
  | number (x : Float)

structure Statement where
  text : JsString
  params : List SqlParam

/-- `serializeValue(value)`. -/
def serializeValue : JsValue → SqlParam
  | .undefined | .null => .null
  | .bool b => .number (if b then 1 else 0)
  | .num x => .number x
  | .str s => .text s
  | .arr ref elements => ((jsonStringify (.arr ref elements)).map .text).getD .null
  | .obj ref fields => ((jsonStringify (.obj ref fields)).map .text).getD .null

def findText (table : JsString) : JsString :=
  js "SELECT * FROM " ++ table ++ js " WHERE name = ? LIMIT ?"

def countText (table : JsString) : JsString :=
  js "SELECT COUNT(*) as count FROM " ++ table ++ js " WHERE name = ?"

def findByIdText (table : JsString) : JsString :=
  js "SELECT * FROM " ++ table ++ js " WHERE id = ?"

def updateText (table : JsString) (columns : List JsString) : JsString :=
  js "UPDATE " ++ table ++ js " SET " ++ join (js ", ") (columns.map fun col => col ++ js " = ?") ++
    js " WHERE id = ?"

/-- The statements of `getByName(name)`. -/
def getByName (table name : JsString) : List Statement :=
  [⟨findText table, [.text name, .number 1]⟩, ⟨countText table, [.text name]⟩]

/-- The `UPDATE` of `updateById(table, id, data)`, whose columns are the keys of the data. -/
def updateById (table id : JsString) (data : Fields) (now : JsString) : Statement :=
  let updateData := ownEntries (setField "updatedAt" (.str now) (ownEntries data))
  ⟨updateText table (updateData.map Prod.fst),
    updateData.map (fun field => serializeValue field.2) ++ [.text id]⟩

/-! ## Requests -/

structure StoredRecord where
  id : JsString
  fields : Fields

/-- What the database answers in the course of a request, and the time of the update. -/
structure Answers where
  existing : Option StoredRecord
  found : Option StoredRecord
  changed : Bool
  now : JsString

inductive UpdateError
  | notFound (message : JsString)
  | internal

def notFound (resource : Resource) (name : JsString) : UpdateError :=
  .notFound (resource.label ++ js " " ++ name ++ js " not found")

/-- `repo.update(name, updates)`. -/
def repositoryUpdate (resource : Resource) (name : JsString) (updates : Fields) (answers : Answers) :
    List Statement × Except UpdateError Unit :=
  match answers.found with
  | none => (getByName resource.table name, .error (notFound resource name))
  | some record =>
      let update := updateById resource.table record.id updates answers.now
      if answers.changed then
        (getByName resource.table name ++
          [update, ⟨findByIdText resource.table, [.text record.id]⟩], .ok ())
      else (getByName resource.table name ++ [update], .error (notFound resource name))

/-- The object a request has its data in. -/
def requestData (resource : Resource) (body : JsValue) : JsValue :=
  orElse (propOrUndefined body resource.bodyField) (.obj none [])

/-- The statements an update request runs, and how it ends. -/
def updateRequest (resource : Resource) (name : JsString) (body : JsValue) (answers : Answers) :
    List Statement × Except UpdateError Unit :=
  let data := requestData resource body
  match maskFields body with
  | none => ([], .error .internal)
  | some fields =>
      if fields.any fun field => includes field (js ".") then
        match answers.existing with
        | none => (getByName resource.table name, .error (notFound resource name))
        | some record =>
            match fields.foldlM (applyField resource data record.fields) [] with
            | none => (getByName resource.table name, .error .internal)
            | some updates =>
                let (statements, result) := repositoryUpdate resource name updates answers
                (getByName resource.table name ++ statements, result)
      else
        match fields.foldlM (applyField resource data []) [] with
        | none => ([], .error .internal)
        | some updates => repositoryUpdate resource name updates answers

/-- `updateTopic(name, body)`. -/
def updateTopic : JsString → JsValue → Answers → List Statement × Except UpdateError Unit :=
  updateRequest .topic

/-- `updateSubscription(name, body)`. -/
def updateSubscription : JsString → JsValue → Answers → List Statement × Except UpdateError Unit :=
  updateRequest .subscription

/-! ## The columns of a mask -/

/-- The column an entry of the mask sets, if it sets one. -/
def target (resource : Resource) (data : JsValue) (field : JsString) : Option JsString :=
  match cut 0x2E field with
  | (topField, some _) => some topField
  | (_, none) =>
      if ((resource.updatable.lookup field).bind fun kind =>
          kind.update (propOrUndefined data field)).isSome then some field
      else none

def addColumn (columns : List JsString) : Option JsString → List JsString
  | none => columns
  | some column => if column ∈ columns then columns else columns ++ [column]

/-- The columns a mask sets, in the order in which it first names them. -/
def maskColumns (resource : Resource) (data : JsValue) (fields : List JsString) : List JsString :=
  fields.foldl (fun columns field => addColumn columns (target resource data field)) []

/-- Every entry with a dot is about an updatable column, and about no prototype. -/
def WellNamed (resource : Resource) (fields : List JsString) : Prop :=
  ∀ field ∈ fields, ∀ subField ∈ (cut 0x2E field).2,
    (cut 0x2E field).1 ∈ resource.columns ∧ js "__proto__" ∉ splitUnit 0x2E subField

variable {resource : Resource} {data : JsValue}

theorem keys_setField {α : Type*} (name : JsString) (value : α) (fields : List (JsString × α)) :
    (setField name value fields).map Prod.fst = addColumn (fields.map Prod.fst) (some name) := by
  induction fields with
  | nil => rfl
  | cons field fields ih =>
      obtain ⟨other, old⟩ := field
      by_cases hother : other = name
      · subst hother
        simp [setField, addColumn]
      · rw [setField, if_neg hother, List.map_cons, ih]
        by_cases hmem : name ∈ fields.map Prod.fst
        · simp only [addColumn, if_pos hmem, List.map_cons,
            if_pos (List.mem_cons_of_mem other hmem)]
        · have hnot : name ∉ other :: fields.map Prod.fst :=
            List.not_mem_cons_of_ne_of_not_mem (Ne.symm hother) hmem
          simp only [addColumn, if_neg hmem, List.map_cons, if_neg hnot, List.cons_append]

theorem proto_notMem_columns (resource : Resource) : js "__proto__" ∉ resource.columns := by
  cases resource <;> decide +kernel

theorem not_isIndexName_of_mem_columns (resource : Resource) :
    ∀ column ∈ resource.columns, isIndexName column = false := by
  cases resource <;> decide +kernel

theorem updatedAt_notMem_columns (resource : Resource) : js "updatedAt" ∉ resource.columns := by
  cases resource <;> decide +kernel

theorem applyField_keys {existing updates updates' : Fields} {field : JsString}
    (hnamed : ∀ subField ∈ (cut 0x2E field).2, (cut 0x2E field).1 ∈ resource.columns)
    (h : applyField resource data existing updates field = some updates') :
    updates'.map Prod.fst = addColumn (updates.map Prod.fst) (target resource data field) := by
  unfold applyField at h
  unfold target
  generalize cut 0x2E field = parts at hnamed h ⊢
  obtain ⟨topField, _ | subField⟩ := parts
  · dsimp only at h ⊢
    split at h
    · rename_i hunset
      obtain rfl := Option.some.inj h
      rw [hunset]
      rfl
    · rename_i value hset
      obtain rfl := Option.some.inj h
      rw [hset]
      exact keys_setField ..
  · have hproto : topField ≠ js "__proto__" := by
      rintro rfl
      exact proto_notMem_columns resource (hnamed subField rfl)
    simp only [applyNestedSubUpdate, Option.bind_eq_bind, Option.bind_eq_some_iff] at h
    obtain ⟨_, -, _, -, _, -, h⟩ := h
    obtain rfl := Option.some.inj h
    rw [assignField, if_neg hproto]
    exact keys_setField ..

theorem foldlM_keys {existing updates updates' : Fields} {fields : List JsString}
    (hnamed : WellNamed resource fields)
    (h : fields.foldlM (applyField resource data existing) updates = some updates') :
    updates'.map Prod.fst = fields.foldl
      (fun columns field => addColumn columns (target resource data field))
      (updates.map Prod.fst) := by
  induction fields generalizing updates with
  | nil =>
      obtain rfl := Option.some.inj h
      rfl
  | cons field fields ih =>
      obtain ⟨hfield, hfields⟩ := List.forall_mem_cons.1 hnamed
      rw [List.foldlM_cons, Option.bind_eq_bind, Option.bind_eq_some_iff] at h
      obtain ⟨next, hnext, hrest⟩ := h
      rw [ih hfields hrest, List.foldl_cons,
        applyField_keys (fun subField hsub => (hfield subField hsub).1) hnext]

theorem mem_addColumn {columns : List JsString} {target : Option JsString} {column : JsString}
    (h : column ∈ addColumn columns target) : column ∈ columns ∨ target = some column := by
  cases target with
  | none => exact .inl h
  | some name =>
      rw [addColumn] at h
      split at h
      · exact .inl h
      · rcases List.mem_append.1 h with h | h
        · exact .inl h
        · exact .inr (congrArg some (List.mem_singleton.1 h).symm)

theorem nodup_addColumn {columns : List JsString} (h : columns.Nodup) (target : Option JsString) :
    (addColumn columns target).Nodup := by
  cases target with
  | none => exact h
  | some name =>
      rw [addColumn]
      split
      · exact h
      · exact List.nodup_append.2 ⟨h, List.nodup_singleton name, fun column hcolumn other hother =>
          fun heq => ‹name ∉ columns› (List.mem_singleton.1 hother ▸ heq ▸ hcolumn)⟩

/-- A column that an entry of a well-named mask sets is one of the resource. -/
theorem target_mem_columns {field column : JsString}
    (hnamed : ∀ subField ∈ (cut 0x2E field).2, (cut 0x2E field).1 ∈ resource.columns)
    (h : target resource data field = some column) : column ∈ resource.columns := by
  unfold target at h
  generalize cut 0x2E field = parts at hnamed h
  obtain ⟨topField, _ | subField⟩ := parts
  · dsimp only at h
    split at h
    · obtain rfl := Option.some.inj h
      obtain ⟨value, hvalue⟩ := Option.isSome_iff_exists.1 ‹_›
      obtain ⟨kind, hkind, -⟩ := Option.bind_eq_some_iff.1 hvalue
      obtain ⟨before, after, hlist, -⟩ := List.lookup_eq_some_iff.1 hkind
      rw [Resource.columns, hlist]
      simp
    · cases h
  · obtain rfl := Option.some.inj h
    exact hnamed subField rfl

theorem maskColumns_induction (data : JsValue) {fields : List JsString} (hnamed : WellNamed resource fields)
    {columns : List JsString} (hcolumns : columns.Nodup ∧ columns ⊆ resource.columns) :
    (fields.foldl (fun columns field => addColumn columns (target resource data field))
        columns).Nodup ∧
      fields.foldl (fun columns field => addColumn columns (target resource data field)) columns ⊆
        resource.columns := by
  induction fields generalizing columns with
  | nil => exact hcolumns
  | cons field fields ih =>
      obtain ⟨hfield, hfields⟩ := List.forall_mem_cons.1 hnamed
      refine ih hfields ⟨nodup_addColumn hcolumns.1 _, fun column hcolumn => ?_⟩
      rcases mem_addColumn hcolumn with hold | hnew
      · exact hcolumns.2 hold
      · exact target_mem_columns (fun subField hsub => (hfield subField hsub).1) hnew

/-! ## The text of the statements -/

theorem ownEntries_of_no_index {fields : Fields}
    (h : ∀ field ∈ fields, isIndexName field.1 = false) : ownEntries fields = fields := by
  have hindices : fields.filter (fun f => isIndexName f.1) = [] :=
    List.filter_eq_nil_iff.2 fun field hfield => by rw [h field hfield]; exact Bool.false_ne_true
  have hothers : fields.filter (fun f => !isIndexName f.1) = fields :=
    List.filter_eq_self.2 fun field hfield => by rw [h field hfield]; rfl
  rw [ownEntries, hindices, hothers]
  rfl

/-- The text of an `UPDATE` names the columns of the data, and the time of the update. -/
theorem updateById_text (table id now : JsString) {updates : Fields}
    (h : updates.map Prod.fst ⊆ resource.columns) :
    (updateById table id updates now).text =
      updateText table (updates.map Prod.fst ++ [js "updatedAt"]) := by
  have hplain : ∀ field ∈ updates, isIndexName field.1 = false := fun field hfield =>
    not_isIndexName_of_mem_columns resource field.1 (h (List.mem_map_of_mem hfield))
  have hkeys : (setField (js "updatedAt") (JsValue.str now) updates).map Prod.fst =
      updates.map Prod.fst ++ [js "updatedAt"] := by
    rw [keys_setField, addColumn, if_neg fun hmem => updatedAt_notMem_columns resource (h hmem)]
  have hall : ∀ field ∈ setField (js "updatedAt") (JsValue.str now) updates,
      isIndexName field.1 = false := by
    intro field hfield
    have hmem : field.1 ∈ updates.map Prod.fst ++ [js "updatedAt"] := by
      rw [← hkeys]
      exact List.mem_map_of_mem hfield
    rcases List.mem_append.1 hmem with hmem | hmem
    · exact not_isIndexName_of_mem_columns resource field.1 (h hmem)
    · rw [List.mem_singleton.1 hmem]
      decide +kernel
  rw [updateById, ownEntries_of_no_index hplain, ownEntries_of_no_index hall]
  exact congrArg (updateText table) hkeys

/-- The texts of the statements of an update that sets the given columns. -/
def statementTexts (table : JsString) (columns : List JsString) : List JsString :=
  [findText table, countText table, updateText table (columns ++ [js "updatedAt"]),
    findByIdText table]

theorem getByName_texts (table name : JsString) (columns : List JsString) :
    ∀ statement ∈ getByName table name, statement.text ∈ statementTexts table columns := by
  intro statement hmem
  rcases List.mem_cons.1 hmem with rfl | hmem
  · simp [statementTexts]
  · obtain rfl := List.mem_singleton.1 hmem
    simp [statementTexts]

theorem repositoryUpdate_texts {name : JsString} {updates : Fields} {answers : Answers}
    (h : updates.map Prod.fst ⊆ resource.columns) :
    ∀ statement ∈ (repositoryUpdate resource name updates answers).1,
      statement.text ∈ statementTexts resource.table (updates.map Prod.fst) := by
  intro statement hmem
  have hlookup := getByName_texts resource.table name (updates.map Prod.fst) statement
  unfold repositoryUpdate at hmem
  split at hmem
  · exact hlookup hmem
  · rename_i record _
    have hupdate := updateById_text resource.table record.id answers.now h
    split at hmem
    · rcases List.mem_append.1 hmem with hmem | hmem
      · exact hlookup hmem
      · rcases List.mem_cons.1 hmem with rfl | hmem
        · simp [statementTexts, hupdate]
        · obtain rfl := List.mem_singleton.1 hmem
          simp [statementTexts]
    · rcases List.mem_append.1 hmem with hmem | hmem
      · exact hlookup hmem
      · obtain rfl := List.mem_singleton.1 hmem
        simp [statementTexts, hupdate]

/-- A request to update a subscription with a label and a retry policy. -/
def sampleBody (mask : JsString) : JsValue :=
  .obj none
    [ ("subscription", .obj none
        [ ("labels", .obj none [("team", .str "a")]),
          ("retryPolicy", .obj none [("minimumBackoff", .str "10s")]) ]),
      ("updateMask", .str mask) ]

def sampleAnswers : Answers where
  existing := some ⟨"1", []⟩
  found := some ⟨"1", []⟩
  changed := true
  now := "2024-06-01T00:00:00.000Z"

end Kinglet.Pubsub
