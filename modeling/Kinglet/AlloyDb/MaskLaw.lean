import Kinglet.AlloyDb.Clusterwise
import Kinglet.Library.Outcome

/-!
# What a PATCH writes

The fields that the paths of a mask name take the values of the body, and everything else of the row
stays as it is, but for the time of the update. A PATCH that is refused leaves all rows as they are.
-/

namespace Kinglet.AlloyDb

open Js Library Storage

/-! ## Stored fields -/

/-- What a value is read back as, if it has a text. -/
def storedValue : JsValue → Option JsValue
  | .undefined => none
  | value => some (jsonCopy value)

/-- The fields of an object that was read back. -/
structure Stored (fields : Fields) : Prop where
  names : (fields.map Prod.fst).Nodup
  values : ∀ entry ∈ fields, storedValue entry.2 = some entry.2

/-! ## The law -/

/-- `path.split('.')[0]`. -/
def rootField (path : JsString) : JsString := path.takeWhile fun u => u ≠ unit '.'

/-- The roots of the paths of the mask or, without a mask, the writable fields of the body. -/
def Named (body : Fields) (mutableFields : List JsString) (updateMask : Option JsString)
    (field : JsString) : Prop :=
  if trim (updateMask.getD []) = [] then field ∈ mutableFields ∧ hasOwn body field
  else ∃ path ∈ splitUnit (unit ',') (updateMask.getD []), rootField (trim path) = field

instance (body : Fields) (mutableFields : List JsString) (updateMask : Option JsString)
    (field : JsString) : Decidable (Named body mutableFields updateMask field) :=
  inferInstanceAs (Decidable (if trim (updateMask.getD []) = [] then _ else _))

/-- A named field of a specification is what the body has, normalised, and the others are as before. -/
def SpecFollows (Named : JsString → Prop) (columnedFields : List JsString)
    (enumFields : List (JsString × EnumNumberMap)) (body before after : Fields) : Prop :=
  ∀ field, (Named field ∧ field ∉ columnedFields → ownField after field =
      (ownField body field).bind fun value => storedValue (normalizeSpecFieldValue enumFields field value)) ∧
    (¬(Named field ∧ field ∉ columnedFields) → ownField after field = ownField before field)

section Follows

variable (body : Fields) (updateMask : Option JsString)

/-- Of the initial user, a cluster has the name. -/
structure ClusterFollows (before after : ClusterData) : Prop where
  initialUser : after.initialUserName =
    if Named body mutableClusterFields updateMask "initialUser" then (readInitialUser body).1
    else before.initialUserName
  spec : SpecFollows (Named body mutableClusterFields updateMask) columnedClusterFields
    clusterEnumFields body before.spec after.spec
  updateTime : ∃ now, after.updateTime = toISOString now
  rest : after = { before with
    initialUserName := after.initialUserName, updateTime := after.updateTime, spec := after.spec }

/-- A type that is named stays where the body has none. -/
structure InstanceFollows (before after : InstanceData) : Prop where
  instanceType : after.instanceType =
    if Named body mutableInstanceFields updateMask "instanceType" then
      stringOr before.instanceType (normalizeEnum (read body "instanceType") instanceTypeEnum)
    else before.instanceType
  spec : SpecFollows (Named body mutableInstanceFields updateMask) columnedInstanceFields
    instanceEnumFields body before.spec after.spec
  updateTime : ∃ now, after.updateTime = toISOString now
  rest : after = { before with
    instanceType := after.instanceType, updateTime := after.updateTime, spec := after.spec }

/-- A type or a password that is named stays where the body has none. -/
structure UserFollows (before after : UserData) : Prop where
  userType : after.userType =
    if Named body mutableUserFields updateMask "userType" then
      stringOr before.userType (normalizeEnum (read body "userType") userTypeEnum)
    else before.userType
  password : after.password =
    if Named body mutableUserFields updateMask "password" then
      stringOr before.password (read body "password")
    else before.password
  spec : SpecFollows (Named body mutableUserFields updateMask) columnedUserFields
    userEnumFields body before.spec after.spec

end Follows

/-- The rows with other data in one of them. -/
def Rows.patched (rows : Rows) {kind : Kind} (existing : kind.Row) (after : kind.Data) : Rows :=
  Function.update rows kind ((rows kind).map fun row =>
    if row.id = existing.id then { row with data := after } else row)

/-- The storage and the data plane reject nothing. -/
def Calm (allows : AlloyStore → Ask → Outside → Prop) : Prop :=
  ∀ store ask outside, allows store ask outside → outside.reply = .done

/-- What a PATCH of a row leads to: if it is accepted, to what follows; if it is refused, to nothing, unless
there is no response for what it has written. -/
def Patched (allows : AlloyStore → Ask → Outside → Prop) {α : Type} (store : AlloyStore) (kind : Kind)
    (existing : kind.Row) (Follows Responds : kind.Data → Prop) (store' : AlloyStore) :
    Except Thrown α → Prop
  | .ok _ => ∃ after, Follows after ∧ store'.rows = store.rows.patched existing after
  | .error _ => Calm allows → store' = store ∨ ∃ after, Follows after ∧ ¬Responds after

def Patches (provider : Provider) {α : Type} (p : AlloyScript α) (store : AlloyStore) (kind : Kind)
    (existing : kind.Row) (Follows Responds : kind.Data → Prop) : Prop :=
  ∀ allows store' result, Script.Ends (alloyWorld provider allows) p store store' result →
    Patched allows store kind existing Follows Responds store' result

variable {provider : Provider} {body : Fields} {updateMask : Option JsString} {field name : JsString}
  {mutableFields columnedFields : List JsString} {enumFields : List (JsString × EnumNumberMap)}
  {spec fields : Fields}

/-! ## Fields -/

theorem nodup_setField (value : JsValue) (h : (fields.map Prod.fst).Nodup) :
    ((setField name value fields).map Prod.fst).Nodup := by
  have hnames : ∀ fields : Fields, (setField name value fields).map Prod.fst =
      if name ∈ fields.map Prod.fst then fields.map Prod.fst else fields.map Prod.fst ++ [name] := by
    intro fields
    induction fields with
    | nil => rfl
    | cons entry fields ih =>
        obtain ⟨key, old⟩ := entry
        by_cases hkey : key = name
        · simp [setField, hkey]
        · simp only [setField, if_neg hkey, List.map_cons, ih, List.mem_cons, Ne.symm hkey, false_or]
          split <;> rfl
  rw [hnames]
  split
  · exact h
  · rename_i hnew
    exact List.nodup_append.2 ⟨h, List.nodup_singleton _, fun a ha b hb hab =>
      hnew (List.mem_singleton.1 hb ▸ hab ▸ ha)⟩

theorem ownField_jsonCopyFields (h : (fields.map Prod.fst).Nodup) :
    ownField (jsonCopyFields fields) name = (ownField fields name).bind storedValue := by
  induction fields with
  | nil => rfl
  | cons entry fields ih =>
      obtain ⟨key, value⟩ := entry
      obtain ⟨hkey, hrest⟩ := List.nodup_cons.1 h
      have hnone : ownField fields key = none :=
        ownField_eq_none fun other hother heq => hkey (List.mem_map.2 ⟨other, hother, heq⟩)
      cases value with
      | undefined =>
          rw [jsonCopyFields, ih hrest, ownField_cons]
          split
          · rename_i heq
            rw [heq, hnone]
            rfl
          · rfl
      | _ =>
          rw [jsonCopyFields, ownField_cons, ownField_cons, ih hrest]
          · split <;> rfl
          · exact fun heq => nomatch heq

theorem jsonCopyFields_names : ((jsonCopyFields fields).map Prod.fst).Sublist (fields.map Prod.fst) := by
  induction fields with
  | nil => exact List.Sublist.slnil
  | cons entry fields ih =>
      obtain ⟨key, value⟩ := entry
      cases value with
      | undefined => exact ih.cons _
      | _ => exact ih.cons_cons _

/-- The order of the fields is nothing to their values. -/
theorem ownField_ownEntries (h : (fields.map Prod.fst).Nodup) :
    ownField (ownEntries fields) name = ownField fields name := by
  have hperm : (ownEntries fields).Perm fields :=
    ((List.perm_insertionSort _ _).append_right _).trans (List.filter_append_perm _ _)
  refine Option.ext fun value => ?_
  rw [ownField, ownField, lookup_eq_some_iff_mem ((hperm.map Prod.fst).nodup_iff.2 h),
    lookup_eq_some_iff_mem h]
  exact hperm.mem_iff

theorem Stored.ownField_bind (h : Stored fields) (name : JsString) :
    (ownField fields name).bind storedValue = ownField fields name := by
  cases hvalue : ownField fields name with
  | none => rfl
  | some value => exact h.values (name, value) (mem_of_lookup_eq_some hvalue)

theorem ownField_storedSpec (h : (fields.map Prod.fst).Nodup) :
    ownField (storedSpec fields) name = (ownField fields name).bind storedValue := by
  rw [storedSpec, ownField_ownEntries (h.sublist jsonCopyFields_names), ownField_jsonCopyFields h]

/-! ## Masked fields -/

theorem mem_resolveMaskedFields (h : resolveMaskedFields body mutableFields updateMask = .ok names) :
    field ∈ names ↔ Named body mutableFields updateMask field := by
  rw [resolveMaskedFields] at h
  rw [Named]
  dsimp only at h
  split at h
  · rename_i hblank
    obtain rfl := Except.ok.inj h
    have hperm : (ownEntries body).Perm body :=
      ((List.perm_insertionSort _ _).append_right _).trans (List.filter_append_perm _ _)
    rw [if_pos hblank, List.mem_filter, (hperm.map Prod.fst).mem_iff, and_comm, decide_eq_true_iff,
      hasOwn, ownField, List.lookup_isSome_iff, List.mem_map]
    exact and_congr_right fun _ => exists_congr fun entry => and_congr_right fun _ => by
      rw [beq_iff_eq, eq_comm]
  · rename_i hmask
    rw [if_neg hmask]
    have hroots := foldlM_set (fun roots => field ∈ roots) True
      (fun path => rootField (trim path) = field) (fun roots path roots' hstep => ?_) h
    · simpa using hroots
    · split at hstep
      · cases hstep
      · split at hstep
        · cases hstep
        · obtain rfl := Except.ok.inj hstep
          change (field ∈ if rootField (trim path) ∈ roots then roots
            else roots ++ [rootField (trim path)]) = _
          by_cases hroot : rootField (trim path) = field
          · subst hroot
            rw [if_pos rfl]
            split <;> simp [*]
          · rw [if_neg hroot]
            split
            · rfl
            · simp [Ne.symm hroot]

/-! ## Writing the fields -/

theorem ownField_writeField : ownField (writeField enumFields body field spec) name =
    if field = name then (ownField body name).map (normalizeSpecFieldValue enumFields name)
    else ownField spec name := by
  rw [writeField]
  cases hbody : ownField body field with
  | some value =>
      rw [ownField, lookup_setField]
      by_cases hname : field = name
      · subst hname
        rw [if_pos rfl, if_pos rfl, hbody, Option.map_some]
      · rw [if_neg (Ne.symm hname), if_neg hname, ownField]
  | none =>
      by_cases hname : field = name
      · subst hname
        rw [if_pos rfl, hbody, Option.map_none]
        exact ownField_eq_none fun entry hentry => of_decide_eq_true (List.mem_filter.1 hentry).2
      · rw [if_neg hname]
        exact ownField_filter (fun other => decide (other ≠ field)) spec (decide_eq_true (Ne.symm hname))

theorem nodup_writeField (h : (spec.map Prod.fst).Nodup) :
    ((writeField enumFields body field spec).map Prod.fst).Nodup := by
  rw [writeField]
  split
  · exact nodup_setField _ h
  · exact h.sublist (List.filter_sublist.map _)

/-- The specification after the fields were written one by one, as it is stored. -/
theorem specFollows_of_foldlM {υ : Type} {step : υ → JsString → Except Thrown υ} {u u' : υ}
    {names : List JsString} (getSpec : υ → Fields)
    (hstep : ∀ u name u', step u name = .ok u' → getSpec u' =
      if name ∈ columnedFields then getSpec u else writeField enumFields body name (getSpec u))
    (h : names.foldlM step u = .ok u') (hstored : Stored (getSpec u))
    (hnames : resolveMaskedFields body mutableFields updateMask = .ok names) :
    SpecFollows (Named body mutableFields updateMask) columnedFields enumFields body (getSpec u)
      (storedSpec (getSpec u')) := by
  have hnodup : ((getSpec u').map Prod.fst).Nodup := by
    refine foldlM_keeps (P := fun u => ((getSpec u).map Prod.fst).Nodup) (fun u name u' hu hkept => ?_) h
      hstored.names
    rw [hstep u name u' hu]
    split
    · exact hkept
    · exact nodup_writeField hkept
  intro name
  have hset := foldlM_set (fun u => ownField (getSpec u) name)
    ((ownField body name).map (normalizeSpecFieldValue enumFields name))
    (fun other => other = name ∧ name ∉ columnedFields) (fun u other u' hu => ?_) h
  · rw [ownField_storedSpec hnodup, hset, ← mem_resolveMaskedFields hnames]
    constructor
    · rintro ⟨hmem, hcolumned⟩
      rw [if_pos ⟨name, hmem, rfl, hcolumned⟩, Option.bind_map]
      rfl
    · intro hnot
      rw [if_neg, hstored.ownField_bind]
      rintro ⟨_, hmem, rfl, hcolumned⟩
      exact hnot ⟨hmem, hcolumned⟩
  · rw [hstep u other u' hu]
    by_cases hcolumned : other ∈ columnedFields
    · rw [if_pos hcolumned, if_neg]
      rintro ⟨rfl, hnot⟩
      exact hnot hcolumned
    · rw [if_neg hcolumned, ownField_writeField]
      by_cases hname : other = name
      · subst hname
        rw [if_pos rfl, if_pos ⟨rfl, hcolumned⟩]
      · rw [if_neg hname, if_neg fun h => hname h.1]

/-- A column that the steps set, if its field is named and the body has something for it. -/
theorem column_of_foldlM {υ β : Type} {step : υ → JsString → Except Thrown υ} {u u' : υ}
    {names : List JsString} (getColumn : υ → β) (value : β) (Has : Prop) [Decidable Has]
    (hstep : ∀ u other u', step u other = .ok u' →
      getColumn u' = if other = name ∧ Has then value else getColumn u)
    (h : names.foldlM step u = .ok u')
    (hnames : resolveMaskedFields body mutableFields updateMask = .ok names)
    (hhas : ¬Has → value = getColumn u) :
    getColumn u' = if Named body mutableFields updateMask name then value else getColumn u := by
  rw [foldlM_set getColumn value (fun other => other = name ∧ Has) hstep h]
  by_cases hbody : Has
  · simp only [hbody, and_true, exists_eq_right, mem_resolveMaskedFields hnames]
  · simp only [hbody, and_false, exists_false, hhas hbody, ite_self]

theorem read_of_not_hasOwn (h : ¬hasOwn body name = true) : read body name = .undefined := by
  rw [hasOwn, Option.not_isSome_iff_eq_none] at h
  rw [read, h, Option.getD_none]

/-! ## The services -/

theorem clusterFollows {existing : ClusterData} {updates : ClusterService.ClusterUpdates}
    (h : ClusterService.buildClusterUpdates existing body updateMask = .ok updates)
    (hstored : Stored existing.spec) (now : ℤ) :
    ClusterFollows body updateMask existing (updates.apply (toISOString now) existing) := by
  obtain ⟨names, hnames, h⟩ := bind_eq_ok.1 h
  obtain ⟨-, -, h⟩ := bind_eq_ok.1 h
  have hfold := (List.foldlM_pure (m := Except Thrown) (f := fun updates field =>
    if field = js "initialUser" then { updates with initialUserName := some (readInitialUser body).1 }
    else { updates with spec := writeField clusterEnumFields body field updates.spec })
    (b := (⟨none, existing.spec⟩ : ClusterService.ClusterUpdates)) (l := names)).trans h
  refine ⟨?_, ?_, ⟨now, rfl⟩, rfl⟩
  · refine column_of_foldlM (fun updates => updates.initialUserName.getD existing.initialUserName)
      (readInitialUser body).1 True (fun updates other updates' hupdates => ?_) hfold hnames
      (absurd trivial)
    obtain rfl := Except.ok.inj hupdates
    simp only [and_true]
    split <;> rfl
  · refine specFollows_of_foldlM ClusterService.ClusterUpdates.spec
      (fun updates other updates' hupdates => ?_) hfold hstored hnames
    obtain rfl := Except.ok.inj hupdates
    simp only [columnedClusterFields, List.mem_singleton]
    split <;> rfl

theorem instanceFollows {existing : InstanceData} {updates : InstanceService.InstanceUpdates}
    (h : InstanceService.buildInstanceUpdates existing body updateMask = .ok updates)
    (hstored : Stored existing.spec) (now : ℤ) :
    InstanceFollows body updateMask existing (updates.apply (toISOString now) existing) := by
  obtain ⟨names, hnames, h⟩ := bind_eq_ok.1 h
  have hcolumn : ∀ name, name ∈ columnedInstanceFields ↔ name = js "instanceType" :=
    fun name => List.mem_singleton
  obtain ⟨step, hstep, h⟩ : ∃ step : InstanceService.InstanceUpdates → JsString → Except Thrown _,
      (∀ u name u', step u name = .ok u' →
        (u'.instanceType.getD existing.instanceType =
          if name = js "instanceType" ∧ hasOwn body "instanceType" then
            stringOr existing.instanceType (normalizeEnum (read body "instanceType") instanceTypeEnum)
          else u.instanceType.getD existing.instanceType) ∧
        u'.spec = if name ∈ columnedInstanceFields then u.spec
          else writeField instanceEnumFields body name u.spec) ∧
      names.foldlM step ⟨none, existing.spec⟩ = .ok updates := by
    refine ⟨_, fun u name u' hu => ?_, h⟩
    split at hu
    · rename_i hname
      rw [if_pos ((hcolumn name).2 hname)]
      split at hu
      · obtain ⟨_, -, hu⟩ := bind_eq_ok.1 hu
        obtain rfl := Except.ok.inj hu
        rw [if_pos ⟨hname, ‹_›⟩]
        exact ⟨rfl, rfl⟩
      · obtain rfl := Except.ok.inj hu
        rw [if_neg fun h => ‹¬_› h.2]
        exact ⟨rfl, rfl⟩
    · rename_i hname
      obtain rfl := Except.ok.inj hu
      rw [if_neg fun h => hname h.1, if_neg fun h => hname ((hcolumn name).1 h)]
      exact ⟨rfl, rfl⟩
  refine ⟨?_, ?_, ⟨now, rfl⟩, rfl⟩
  · refine column_of_foldlM (fun updates => updates.instanceType.getD existing.instanceType) _ _
      (fun u name u' hu => (hstep u name u' hu).1) h hnames fun hbody => ?_
    rw [read_of_not_hasOwn hbody]
    rfl
  · exact specFollows_of_foldlM InstanceService.InstanceUpdates.spec
      (fun u name u' hu => (hstep u name u' hu).2) h hstored hnames

theorem userFollows {existing : UserData} {updates : UserService.UserUpdates}
    (h : UserService.buildUserUpdates existing body updateMask = .ok updates)
    (hstored : Stored existing.spec) : UserFollows body updateMask existing (updates.apply existing) := by
  classical
  obtain ⟨names, hnames, h⟩ := bind_eq_ok.1 h
  have hcolumn : ∀ name, name ∈ columnedUserFields ↔
      name = js "userType" ∨ name = js "password" ∨ name = js "keepExtraRoles" := by
    intro name
    rw [columnedUserFields, List.mem_cons, List.mem_cons, List.mem_singleton]
  obtain ⟨step, hstep, h⟩ : ∃ step : UserService.UserUpdates → JsString → Except Thrown _,
      (∀ u name u', step u name = .ok u' →
        (u'.userType.getD existing.userType =
          if name = js "userType" ∧ hasOwn body "userType" then
            stringOr existing.userType (normalizeEnum (read body "userType") userTypeEnum)
          else u.userType.getD existing.userType) ∧
        (u'.password.getD existing.password =
          if name = js "password" ∧ ∃ password, read body "password" = .str password then
            stringOr existing.password (read body "password")
          else u.password.getD existing.password) ∧
        u'.spec = if name ∈ columnedUserFields then u.spec
          else writeField userEnumFields body name u.spec) ∧
      names.foldlM step ⟨none, none, existing.spec⟩ = .ok updates := by
    refine ⟨_, fun u name u' hu => ?_, h⟩
    split at hu
    · rename_i hname
      have hcolumned := (hcolumn name).2 (.inl hname)
      have hpassword : name ≠ js "password" := by
        rw [hname]
        decide
      split at hu
      · rename_i hbody
        obtain ⟨_, -, hu⟩ := bind_eq_ok.1 hu
        obtain rfl := Except.ok.inj hu
        exact ⟨(if_pos ⟨hname, hbody⟩).symm, (if_neg fun h => hpassword h.1).symm,
          (if_pos hcolumned).symm⟩
      · rename_i hbody
        obtain rfl := Except.ok.inj hu
        exact ⟨(if_neg fun h => hbody h.2).symm, (if_neg fun h => hpassword h.1).symm,
          (if_pos hcolumned).symm⟩
    · rename_i htype
      split at hu
      · rename_i hname
        have hcolumned := (hcolumn name).2 (.inr (.inl hname))
        split at hu
        · rename_i password hread
          obtain rfl := Except.ok.inj hu
          refine ⟨(if_neg fun h => htype h.1).symm, ?_, (if_pos hcolumned).symm⟩
          rw [if_pos ⟨hname, password, hread⟩, hread]
          rfl
        · rename_i hread
          obtain rfl := Except.ok.inj hu
          exact ⟨(if_neg fun h => htype h.1).symm, (if_neg fun h => h.2.elim hread).symm,
            (if_pos hcolumned).symm⟩
      · rename_i hpassword
        split at hu
        · rename_i hname
          obtain rfl := Except.ok.inj hu
          exact ⟨(if_neg fun h => htype h.1).symm, (if_neg fun h => hpassword h.1).symm,
            (if_pos ((hcolumn name).2 (.inr (.inr hname)))).symm⟩
        · rename_i hroles
          obtain rfl := Except.ok.inj hu
          refine ⟨(if_neg fun h => htype h.1).symm, (if_neg fun h => hpassword h.1).symm,
            (if_neg fun h => ?_).symm⟩
          exact ((hcolumn name).1 h).elim htype fun h => h.elim hpassword hroles
  refine ⟨?_, ?_, ?_⟩
  · refine column_of_foldlM (fun updates => updates.userType.getD existing.userType) _ _
      (fun u name u' hu => (hstep u name u' hu).1) h hnames fun hbody => ?_
    rw [read_of_not_hasOwn hbody]
    rfl
  · refine column_of_foldlM (fun updates => updates.password.getD existing.password) _ _
      (fun u name u' hu => (hstep u name u' hu).2.1) h hnames fun hread => ?_
    cases hcase : read body "password" with
    | str password => exact absurd ⟨password, hcase⟩ hread
    | _ => rfl
  · exact specFollows_of_foldlM UserService.UserUpdates.spec
      (fun u name u' hu => (hstep u name u' hu).2.2) h hstored hnames

/-! ## The calls -/

section Calls

variable {allows : AlloyStore → Ask → Outside → Prop} {store : AlloyStore} {ask : Ask} {α : Type}
  {Q : AlloyStore → Except Thrown α → Prop} {kind : Kind} {path : ClusterPath}

abbrev Leads (provider : Provider) (allows : AlloyStore → Ask → Outside → Prop)
    (Q : AlloyStore → Except Thrown α → Prop) (p : AlloyScript α) (store : AlloyStore) : Prop :=
  Script.Safe (alloyWorld provider allows) (fun _ _ => True) Q p store

/-- An ask that is refused by nothing but from outside. -/
theorem leads_perform {Q : AlloyStore → Except Thrown (Answer ask) → Prop}
    (hrefuses : store.rows.refuses provider ask = false)
    (hdone : ∀ outside, Q ⟨store.rows.written provider outside ask, store.nextOperations outside ask,
      store.nextPlane outside ask⟩ (.ok (store.rows.answered provider outside ask)))
    (hrejected : ¬Calm allows → ∀ store thrown, Q store (.error thrown)) :
    Leads provider allows Q (perform ask) store := by
  refine Script.safe_request.2 ⟨trivial, fun outside hallows => ?_⟩
  change Q (store.handle provider ask outside).1 (store.handle provider ask outside).2
  rw [AlloyStore.handle, Rows.handle, hrefuses, if_neg Bool.false_ne_true]
  split
  · rename_i applied message hreply _
    refine hrejected (fun hcalm => ?_) _ _
    rw [hcalm store ask outside hallows] at hreply
    cases hreply
  · exact hdone outside

/-- An ask that only reads. -/
theorem leads_read {next : Answer ask → AlloyScript α} (hrefuses : store.rows.refuses provider ask = false)
    (hreads : ∀ outside, (⟨store.rows.written provider outside ask, store.nextOperations outside ask,
      store.nextPlane outside ask⟩ : AlloyStore) = store)
    (hnext : ∀ outside, Leads provider allows Q
      (next (store.rows.answered provider outside ask)) store)
    (hrejected : ¬Calm allows → ∀ store thrown, Q store (.error thrown)) :
    Leads provider allows Q (perform ask >>= next) store := by
  refine Script.Safe.bind (leads_perform hrefuses (fun outside => ?_) fun hcalm => ?_)
  · rw [hreads outside]
    exact hnext outside
  · exact hrejected hcalm

theorem leads_createOperation {target verb resourceType : JsString} {response : Option Fields}
    {Q : AlloyStore → Except Thrown OperationResponse → Prop}
    (hdone : ∀ store' operation, store'.rows = store.rows → Q store' (.ok operation))
    (hrejected : ¬Calm allows → ∀ store thrown, Q store (.error thrown)) :
    Leads provider allows Q (createOperation path target verb resourceType response) store := by
  refine Script.Safe.bind (leads_read rfl (fun _ => rfl) (fun now => ?_) hrejected)
  refine leads_read rfl (fun _ => rfl) (fun uuid => ?_) hrejected
  refine Script.Safe.bind (leads_perform rfl (fun outside => ?_) hrejected)
  exact hdone _ _ rfl

/-- The patch reaches the row that was found, and no other. -/
theorem leads_update {existing : kind.Row} {patch : kind.Data → kind.Data}
    {next : Option kind.Row → AlloyScript α} (hids : DistinctIds store.rows)
    (hfound : (store.rows.table kind).getByName name = some existing)
    (hnext : ∀ store', store'.rows = store.rows.patched existing (patch existing.data) →
      Leads provider allows Q (next (some { existing with data := patch existing.data })) store')
    (hrejected : ¬Calm allows → ∀ store thrown, Q store (.error thrown)) :
    Leads provider allows Q (update kind name patch >>= next) store := by
  have hmem := List.mem_of_find?_eq_some hfound
  have hsame : ∀ row ∈ store.rows kind, row.id = existing.id → row = existing :=
    fun row hrow hid => List.inj_on_of_nodup_map (hids kind) hrow hmem hid
  have hfind : (store.rows kind).find? (fun row => row.id = existing.id) = some existing := by
    cases hcase : (store.rows kind).find? fun row => row.id = existing.id with
    | none => simpa using List.find?_eq_none.1 hcase existing hmem
    | some row =>
        have hid : row.id = existing.id := by simpa using List.find?_some hcase
        rw [hsame row (List.mem_of_find?_eq_some hcase) hid]
  refine Script.Safe.bind (leads_read rfl (fun _ => rfl) (fun _ => ?_) fun hcalm => hrejected hcalm)
  change Leads provider allows _ (match (store.rows.table kind).getByName name with
    | none => pure none
    | some existing => perform (.updateById kind existing.id patch)) store
  rw [hfound]
  refine leads_perform rfl (fun outside => ?_) fun hcalm => hrejected hcalm
  have hanswer : store.rows.answered provider outside (.updateById kind existing.id patch) =
      some { existing with data := patch existing.data } := by
    rw [Rows.answered, hfind, Option.map_some, Rows.updateRow, if_pos rfl]
  rw [hanswer]
  refine hnext _ ?_
  rw [Rows.patched, Rows.written]
  refine congrArg (Function.update store.rows kind) (List.map_congr_left fun row hrow => ?_)
  rw [Rows.updateRow]
  split
  · rename_i hid
    rw [hsame row hrow hid]
  · rfl

theorem leads_validateInstancePlacement {instanceType : JsString} {next : Unit → AlloyScript α}
    (hnext : Leads provider allows Q (next ()) store) (hthrown : ∀ thrown, Q store (.error thrown))
    (hrejected : ¬Calm allows → ∀ store thrown, Q store (.error thrown)) :
    Leads provider allows Q
      (InstanceService.validateInstancePlacement path name instanceType >>= next) store := by
  rw [InstanceService.validateInstancePlacement]
  split
  · exact hthrown _
  · refine Script.Safe.bind (leads_read rfl (fun _ => rfl) (fun outside => ?_) fun hcalm => ?_)
    · dsimp only
      split
      · exact hthrown _
      · split
        · exact hthrown _
        · exact hnext
    · exact hrejected hcalm

/-! ## What the calls lead to -/

theorem patched_of_not_calm {existing : kind.Row} {Follows Responds : kind.Data → Prop}
    (h : ¬Calm allows) (store' : AlloyStore) (thrown : Thrown) :
    Patched allows store kind existing Follows Responds store' (.error thrown : Except Thrown α) :=
  fun hcalm => absurd hcalm h

theorem patches_updateCluster {existing : ClusterRecord} {allowMissing : Bool}
    (hids : DistinctIds store.rows)
    (hfound : (store.rows.table .clusters).getByName (buildClusterName path) = some existing)
    (hstored : Stored existing.data.spec) :
    Patches provider
      (ClusterService.updateClusterExclusively path body updateMask allowMissing false) store .clusters
      existing (ClusterFollows body updateMask existing.data) (fun _ => True) := by
  intro allows store' result hends
  refine Script.Safe.of_ends (show Leads provider allows _ _ store from ?_) hends
  refine leads_read rfl (fun _ => rfl) (fun _ => ?_) patched_of_not_calm
  rw [Rows.answered, hfound]
  dsimp only
  cases hupdates : ClusterService.buildClusterUpdates existing.data body updateMask with
  | error thrown => exact fun _ => .inl rfl
  | ok updates =>
      refine leads_read rfl (fun _ => rfl) (fun outside => ?_) patched_of_not_calm
      refine leads_update hids hfound (fun store' hrows => ?_) patched_of_not_calm
      refine leads_createOperation (fun store'' operation hsame => ?_) patched_of_not_calm
      exact ⟨_, clusterFollows hupdates hstored outside.now, hsame.trans hrows⟩

theorem patches_updateInstance {existing : InstanceRecord} {instanceId : JsString} {allowMissing : Bool}
    (hids : DistinctIds store.rows)
    (hfound : (store.rows.table .instances).getByName (buildInstanceName path instanceId) = some existing)
    (hstored : Stored existing.data.spec) :
    Patches provider
      (InstanceService.updateInstanceExclusively path instanceId body updateMask allowMissing false) store
      .instances existing (InstanceFollows body updateMask existing.data) (fun _ => True) := by
  intro allows store' result hends
  refine Script.Safe.of_ends (show Leads provider allows _ _ store from ?_) hends
  refine leads_read rfl (fun _ => rfl) (fun _ => ?_) patched_of_not_calm
  rw [Rows.answered, hfound]
  dsimp only
  cases hupdates : InstanceService.buildInstanceUpdates existing.data body updateMask with
  | error thrown => exact fun _ => .inl rfl
  | ok updates =>
      have hwrites : Leads provider allows (Patched allows store .instances existing
          (InstanceFollows body updateMask existing.data) fun _ => True)
          (perform .now >>= fun now => InstanceService.completeMutation path
            (buildInstanceName path instanceId) "update" false (updates.apply now existing.data)
            (update .instances (buildInstanceName path instanceId) (updates.apply now))) store := by
        refine leads_read rfl (fun _ => rfl) (fun outside => ?_) patched_of_not_calm
        refine leads_update hids hfound (fun store' hrows => ?_) patched_of_not_calm
        refine leads_createOperation (fun store'' operation hsame => ?_) patched_of_not_calm
        exact ⟨_, instanceFollows hupdates hstored outside.now, hsame.trans hrows⟩
      simp only [Script.lift_ok_bind]
      cases updates.instanceType with
      | some instanceType =>
          exact leads_validateInstancePlacement hwrites (fun _ _ => .inl rfl) patched_of_not_calm
      | none => exact hwrites

theorem patches_updateUser {existing : UserRecord} {userId : JsString} {allowMissing : Bool}
    (hids : DistinctIds store.rows)
    (hfound : (store.rows.table .users).getByName (buildUserName path userId) = some existing)
    (hstored : Stored existing.data.spec) :
    Patches provider
      (UserService.updateUserExclusively path userId body updateMask allowMissing false) store .users
      existing (UserFollows body updateMask existing.data) (fun after =>
        ∃ user, UserService.userRecordToResponse (buildUserName path userId) after = .ok user) := by
  intro allows store' result hends
  refine Script.Safe.of_ends (show Leads provider allows _ _ store from ?_) hends
  refine leads_read rfl (fun _ => rfl) (fun _ => ?_) patched_of_not_calm
  rw [Rows.answered, hfound]
  dsimp only
  cases hupdates : UserService.buildUserUpdates existing.data body updateMask with
  | error thrown => exact fun _ => .inl rfl
  | ok updates =>
      have hname : existing.name = buildUserName path userId := by
        simpa using List.find?_some hfound
      refine leads_update hids hfound (fun store' hrows => ?_) patched_of_not_calm
      change Patched allows store .users existing _ _ store'
        (UserService.userRecordToResponse existing.name (updates.apply existing.data))
      rw [hname]
      have hfollows := userFollows hupdates hstored
      cases hresponse : UserService.userRecordToResponse (buildUserName path userId)
          (updates.apply existing.data) with
      | ok user => exact ⟨_, hfollows, hrows⟩
      | error thrown =>
          refine fun _ => .inr ⟨_, hfollows, ?_⟩
          rintro ⟨user, huser⟩
          rw [hresponse] at huser
          cases huser

end Calls

/-- **What a PATCH writes.** The fields that it names take the values of the body in the row of the cluster,
the instance or the user, all else stays but for the time of the update, and a PATCH that is refused
writes nothing. -/
theorem patches_follow_mask (provider : Provider) (store : AlloyStore) (hids : DistinctIds store.rows)
    (path : ClusterPath) (body : Fields) (updateMask : Option JsString) (allowMissing : Bool) :
    (∀ existing, (store.rows.table .clusters).getByName (buildClusterName path) = some existing →
      Stored existing.data.spec → Patches provider
        (ClusterService.updateClusterExclusively path body updateMask allowMissing false) store .clusters
        existing (ClusterFollows body updateMask existing.data) (fun _ => True)) ∧
    (∀ instanceId existing,
      (store.rows.table .instances).getByName (buildInstanceName path instanceId) = some existing →
      Stored existing.data.spec → Patches provider
        (InstanceService.updateInstanceExclusively path instanceId body updateMask allowMissing false) store
        .instances existing (InstanceFollows body updateMask existing.data) (fun _ => True)) ∧
    ∀ userId existing, (store.rows.table .users).getByName (buildUserName path userId) = some existing →
      Stored existing.data.spec → Patches provider
        (UserService.updateUserExclusively path userId body updateMask allowMissing false) store .users
        existing (UserFollows body updateMask existing.data) (fun after =>
          ∃ user, UserService.userRecordToResponse (buildUserName path userId) after = .ok user) :=
  ⟨fun _ hfound hstored => patches_updateCluster hids hfound hstored,
    fun _ _ hfound hstored => patches_updateInstance hids hfound hstored,
    fun _ _ hfound hstored => patches_updateUser hids hfound hstored⟩

def sampleCluster : ClusterPath := ⟨"my-app", "us", "main"⟩

def sampleTime : JsString := "2025-01-01T00:00:00.000Z"

def sampleClusterRow : ClusterRecord :=
  ⟨0, buildClusterName sampleCluster, ⟨"c1", "READY", "PRIMARY", some (js "postgres"), 0, sampleTime,
    sampleTime, none, [("network", .str "default"), ("displayName", .str "Main")]⟩⟩

def sampleUserRow : UserRecord :=
  ⟨0, buildUserName sampleCluster "alice", ⟨"ALLOYDB_BUILT_IN", "secret", [("databaseRoles", .arr none [])]⟩⟩

theorem sampleClusterRow_stored : Stored sampleClusterRow.data.spec where
  names := by decide +kernel
  values := List.forall_mem_cons.2 ⟨rfl, List.forall_mem_singleton.2 rfl⟩

/-- A cluster with a user. -/
def sampleStore : AlloyStore where
  rows
    | .clusters => [sampleClusterRow]
    | .instances => []
    | .users => [sampleUserRow]
  operations := []
  plane := fun _ => .running

theorem sampleStore_distinctIds : DistinctIds sampleStore.rows := by
  intro kind
  cases kind with
  | instances => exact List.nodup_nil
  | _ => exact List.nodup_singleton _

theorem patches_follow_mask_sample :
    Patches .sqlite (ClusterService.updateClusterExclusively sampleCluster [("displayName", .str "Other")]
        (some "displayName") false false) sampleStore .clusters sampleClusterRow
      (ClusterFollows [("displayName", .str "Other")] (some "displayName") sampleClusterRow.data)
      (fun _ => True) :=
  (patches_follow_mask .sqlite sampleStore sampleStore_distinctIds sampleCluster
    [("displayName", .str "Other")] (some "displayName") false).1 sampleClusterRow rfl
    sampleClusterRow_stored

/-- The fields of a user that a request may write. -/
def userField (record : UserData) (field : JsString) : Option JsValue :=
  if field = js "userType" then some (.str record.userType)
  else if field = js "password" then some (.str record.password)
  else ownField record.spec field

/-- A PATCH may name `keepExtraRoles`, and the user has no such field. -/
theorem not_patches_set_named : ¬∀ (path : ClusterPath) (userId : JsString) (body : Fields)
    (updateMask : Option JsString) (store store' : AlloyStore) (user : Fields) (after : UserRecord),
    Script.Ends (alloyWorld .sqlite fun _ _ _ => True)
        (UserService.updateUserExclusively path userId body updateMask false false) store store'
        (.ok user) →
      (store'.rows.table .users).getByName (buildUserName path userId) = some after →
      ∀ field, Named body mutableUserFields updateMask field → userField after.data field =
        (ownField body field).bind fun value => storedValue (normalizeSpecFieldValue userEnumFields field value) := by
  intro h
  let world := alloyWorld .sqlite fun _ _ _ => True
  let played := Script.play world (UserService.updateUserExclusively sampleCluster "alice"
    [("keepExtraRoles", .bool true)] (some "keepExtraRoles") false false)
    (fun _ => ⟨.done, 0, .absent, 0, []⟩) sampleStore
  have hanswered : played.2.toBool = true := by decide +kernel
  have hstored : ((played.1.rows.table .users).getByName (buildUserName sampleCluster "alice")).map
      (fun after => (userField after.data "keepExtraRoles").isNone) = some true := by decide +kernel
  obtain ⟨after, hafter, hnone⟩ := Option.map_eq_some_iff.1 hstored
  cases hok : played.2 with
  | error thrown =>
      rw [hok] at hanswered
      cases hanswered
  | ok user =>
      have hends := hok ▸ Script.ends_play (fun _ _ _ => trivial) _ _ _
      have hfield := h _ _ _ _ _ _ _ _ hends hafter "keepExtraRoles" (by decide +kernel)
      rw [hfield] at hnone
      cases hnone

end Kinglet.AlloyDb
