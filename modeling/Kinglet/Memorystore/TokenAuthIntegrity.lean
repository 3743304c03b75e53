import Kinglet.Memorystore.TokenAuthRows

/-!
# Token auth users have instances, and tokens have users

Whatever calls on instances, users and tokens come, in whatever order they are served, and whatever the
storage and the data plane reject: when no call is in flight, each token is of a user that exists and each
user of an instance that exists, and these are the rows that were there when they were added.
-/

namespace Kinglet.Memorystore.Instances

open Js Library Storage Shared

/-- The parents of the tokens and of the users exist, and are the rows under which these were added.
Identifiers are used once, so that an instance with the name of a deleted one has none of its users. -/
structure Referential (rows : Rows) : Prop where
  tokens : ∀ token ∈ rows .authTokens, ∃ user ∈ rows .tokenAuthUsers,
    user.name = token.data.tokenAuthUser ∧ user.id = token.data.parent
  users : ∀ user ∈ rows .tokenAuthUsers, ∃ existing ∈ rows .instances,
    existing.name = user.data.inInstance ∧ existing.id = user.data.parent

/-! ## The part of one instance -/

structure InstancePart (key : JsString) (rows : Rows) : Prop where
  owned : ∀ kind, ∀ row ∈ rows kind, kind.owner row.name = key
  names : ∀ kind, ∀ row ∈ rows kind, kind.Names row.name row.data
  ids : ∀ kind, ((rows kind).map Row.id).Nodup
  referential : Referential rows

/-- The part of an instance without users. -/
def Childless (key : JsString) (rows : Rows) : Prop := InstancePart key rows ∧ rows .tokenAuthUsers = []

section steps

variable {key : JsString} {rows : Rows} {id : ℕ}

theorem InstancePart.remove (h : InstancePart key rows) {kind : Kind} {keep : kind.Row → Bool}
    (hreferential : Referential (Function.update rows kind ((rows kind).filter keep))) :
    InstancePart key (Function.update rows kind ((rows kind).filter keep)) := by
  have hsub : ∀ kind', (Function.update rows kind ((rows kind).filter keep) kind').Sublist (rows kind') := by
    intro kind'
    by_cases hkind : kind' = kind
    · subst hkind
      rw [Function.update_self]
      exact List.filter_sublist
    · rw [Function.update_of_ne hkind]
  exact ⟨fun kind row hrow => h.owned kind row ((hsub kind).subset hrow),
    fun kind row hrow => h.names kind row ((hsub kind).subset hrow),
    fun kind => (h.ids kind).sublist ((hsub kind).map _), hreferential⟩

theorem InstancePart.add (h : InstancePart key rows) {kind : Kind} {new : kind.Row}
    (howner : kind.owner new.name = key) (hnames : kind.Names new.name new.data)
    (hfresh : ∀ row ∈ rows kind, row.id ≠ new.id)
    (hreferential : Referential (Function.update rows kind (rows kind ++ [new]))) :
    InstancePart key (Function.update rows kind (rows kind ++ [new])) := by
  have hmem : ∀ {kind' row}, row ∈ Function.update rows kind (rows kind ++ [new]) kind' →
      row ∈ rows kind' ∨ kind'.owner row.name = key ∧ kind'.Names row.name row.data := by
    intro kind' row hrow
    by_cases hkind : kind' = kind
    · subst hkind
      rw [Function.update_self] at hrow
      rcases List.mem_append.1 hrow with hrow | hrow
      · exact .inl hrow
      · obtain rfl := List.mem_singleton.1 hrow
        exact .inr ⟨howner, hnames⟩
    · rw [Function.update_of_ne hkind] at hrow
      exact .inl hrow
  refine ⟨fun kind' row hrow => ?_, fun kind' row hrow => ?_, fun kind' => ?_, hreferential⟩
  · rcases hmem hrow with hrow | hrow
    · exact h.owned kind' row hrow
    · exact hrow.1
  · rcases hmem hrow with hrow | hrow
    · exact h.names kind' row hrow
    · exact hrow.2
  · by_cases hkind : kind' = kind
    · subst hkind
      rw [Function.update_self, List.map_append, List.nodup_append]
      refine ⟨h.ids kind', List.nodup_singleton _, ?_⟩
      rintro _ hid _ hnew rfl
      obtain ⟨row, hrow, hid⟩ := List.mem_map.1 hid
      exact hfresh row hrow (hid.trans (List.mem_singleton.1 hnew))
    · rw [Function.update_of_ne hkind]
      exact h.ids kind'

/-- A part without users has no tokens. -/
theorem Childless.tokens (h : Childless key rows) : rows .authTokens = [] := by
  refine List.eq_nil_iff_forall_not_mem.2 fun token htoken => ?_
  obtain ⟨user, huser, -⟩ := h.1.referential.tokens token htoken
  rw [h.2] at huser
  cases huser

/-- Without users, the instances may change. -/
theorem Childless.referential (h : Childless key rows) (new : List Kind.instances.Row) :
    Referential (Function.update rows .instances new) := by
  refine ⟨fun token (htoken : token ∈ rows .authTokens) => ?_,
    fun user (huser : user ∈ rows .tokenAuthUsers) => ?_⟩
  · rw [h.tokens] at htoken
    cases htoken
  · rw [h.2] at huser
    cases huser

theorem Childless.deleteInstance (h : Childless key rows) (id : ℕ) :
    Childless key (rows.written 0 (.deleteById .instances id)) :=
  ⟨h.1.remove (h.referential _), h.2⟩

theorem Childless.createInstance (h : Childless key rows) {data : InstanceData}
    (hfresh : ∀ row ∈ rows .instances, row.id ≠ id) :
    Childless key (rows.written id (.create .instances ⟨key, data⟩)) :=
  ⟨h.1.add rfl trivial hfresh (h.referential _), h.2⟩

theorem InstancePart.deleteTokens (h : InstancePart key rows) (keep : Kind.authTokens.Row → Bool) :
    InstancePart key (Function.update rows .authTokens ((rows .authTokens).filter keep)) :=
  h.remove ⟨fun token (htoken : token ∈ (rows .authTokens).filter keep) =>
    h.referential.tokens token (List.mem_filter.1 htoken).1, h.referential.users⟩

/-- A user without tokens may go. -/
theorem InstancePart.deleteUser (h : InstancePart key rows) {user : Kind.tokenAuthUsers.Row}
    (huser : user ∈ rows .tokenAuthUsers) (hnone : rows.tokensOf user.name = []) :
    InstancePart key (rows.written 0 (.deleteById .tokenAuthUsers user.id)) := by
  refine h.remove ⟨fun token (htoken : token ∈ rows .authTokens) => ?_,
    fun other (hother : other ∈ (rows .tokenAuthUsers).filter _) => ?_⟩
  · obtain ⟨other, hother, hname, hid⟩ := h.referential.tokens token htoken
    refine ⟨other, List.mem_filter.2 ⟨hother, decide_eq_true fun hsame => ?_⟩, hname, hid⟩
    obtain rfl : other = user := List.inj_on_of_nodup_map (h.ids .tokenAuthUsers) hother huser hsame
    exact List.filter_eq_nil_iff.1 hnone token htoken (decide_eq_true hname.symm)
  · exact h.referential.users other (List.mem_filter.1 hother).1

theorem InstancePart.createUser (h : InstancePart key rows) {existing : Kind.instances.Row}
    (hexisting : existing ∈ rows .instances) {name : JsString} (hname : parentName name = key)
    (hfresh : ∀ row ∈ rows .tokenAuthUsers, row.id ≠ id) :
    InstancePart key (rows.written id (.create .tokenAuthUsers ⟨name, ⟨key, existing.id⟩⟩)) := by
  refine h.add hname hname.symm hfresh ⟨fun token (htoken : token ∈ rows .authTokens) => ?_,
    fun user (huser : user ∈ rows .tokenAuthUsers ++ [_]) => ?_⟩
  · obtain ⟨user, huser, hsame⟩ := h.referential.tokens token htoken
    exact ⟨user, List.mem_append_left _ huser, hsame⟩
  · rcases List.mem_append.1 huser with huser | huser
    · exact h.referential.users user huser
    · obtain rfl := List.mem_singleton.1 huser
      exact ⟨existing, hexisting, h.owned .instances existing hexisting, rfl⟩

theorem InstancePart.createToken (h : InstancePart key rows) {user : Kind.tokenAuthUsers.Row}
    (huser : user ∈ rows .tokenAuthUsers) {name : JsString} (hname : parentName name = user.name)
    (token : JsString) (hfresh : ∀ row ∈ rows .authTokens, row.id ≠ id) :
    InstancePart key (rows.written id (.create .authTokens ⟨name, ⟨user.name, token, user.id⟩⟩)) := by
  have howner : Kind.authTokens.owner name = key := by
    rw [Kind.owner, hname]
    exact h.owned .tokenAuthUsers user huser
  refine h.add howner hname.symm hfresh ⟨fun other (hother : other ∈ rows .authTokens ++ [_]) => ?_,
    h.referential.users⟩
  rcases List.mem_append.1 hother with hother | hother
  · exact h.referential.tokens other hother
  · obtain rfl := List.mem_singleton.1 hother
    exact ⟨user, huser, rfl, rfl⟩

end steps

/-! ## Asks -/

section asks

variable {key : JsString} {rows : Rows} {P : Rows → Prop}

theorem rows_safe {ask : RowsAsk} {Q : Rows → Except Thrown (RowsAnswer ask) → Prop}
    (hmay : OwnRows key rows (.rows ask))
    (hwritten : ∀ input : RowsInput, Fresh rows input (.rows ask) →
      Q (rows.written input.id ask) (.ok (rows.answered input.id ask)) ∧
        ∀ thrown, Q (rows.written input.id ask) (.error thrown))
    (hsame : ∀ thrown, Q rows (.error thrown)) :
    Script.Safe rowsWorld (OwnRows key) Q (perform (.rows ask)) rows := by
  refine ⟨hmay, fun input hfresh => ?_⟩
  obtain ⟨hdone, hthrown⟩ := hwritten input hfresh
  change Q (rows.handle ask input.rejected input.applied input.id).1
    (rows.handle ask input.rejected input.applied input.id).2
  rcases handle_cases rows ask input.rejected input.applied input.id with heq | ⟨thrown, heq | heq⟩
  · rw [heq]
    exact hdone
  · rw [heq]
    exact hthrown thrown
  · rw [heq]
    exact hsame thrown

theorem getByName_safe {kind : Kind} {name : JsString} {Q : Rows → Except Thrown (Option kind.Row) → Prop}
    (howner : kind.owner name = key)
    (hfound : ∀ row ∈ rows kind, row.name = name → Q rows (.ok (some row)))
    (hnone : (∀ row ∈ rows kind, row.name ≠ name) → Q rows (.ok none))
    (hthrown : ∀ thrown, Q rows (.error thrown)) :
    Script.Safe rowsWorld (OwnRows key) Q (getByName kind name) rows := by
  refine rows_safe howner (fun input _ => ⟨?_, hthrown⟩) hthrown
  change Q rows (.ok ((rows kind).find? fun row => row.name = name))
  cases hfind : (rows kind).find? fun row => row.name = name with
  | none => exact hnone fun row hrow => of_decide_eq_false (by simpa using List.find?_eq_none.1 hfind row hrow)
  | some row =>
    have hname : row.name = name := by simpa using List.find?_some hfind
    exact hfound row (List.mem_of_find?_eq_some hfind) hname

/-- An ask that is not about the rows leaves whatever holds of them. -/
theorem perform_keeps {ask : Ask} (hask : ∀ rowsAsk, ask ≠ .rows rowsAsk := by nofun) :
    Script.Keeps rowsWorld (OwnRows key) P (perform ask) := by
  cases ask with
  | rows ask => exact absurd rfl (hask ask)
  | findCollection | createCollection | deleteCollectionById | createOperation | randomUUID | plane =>
    exact Script.Keeps.request (fun _ _ => trivial) fun _ _ h _ => h

theorem onPlane_keeps {α : Type} (script : PlaneScript α) :
    Script.Keeps rowsWorld (OwnRows key) P (onPlane script) :=
  fun _ h => Script.Safe.embed (fun _ => trivial) (fun _ _ => rfl) (fun _ => h) script

theorem createOperation_keeps (project location target verb resourceType : JsString) :
    Script.Keeps rowsWorld (OwnRows key) P
      (createOperation project location target verb resourceType) :=
  Script.Keeps.bind perform_keeps fun _ => perform_keeps

theorem createBackupCollectionIfMissing_keeps (name inInstance instanceUid : JsString) :
    Script.Keeps rowsWorld (OwnRows key) P
      (createBackupCollectionIfMissing name inInstance instanceUid) := by
  refine Script.Keeps.bind perform_keeps fun existing => ?_
  cases existing with
  | some row => exact Script.Keeps.pure
  | none =>
    exact Script.Keeps.bind perform_keeps fun _ => Script.Keeps.bind perform_keeps fun _ => Script.Keeps.pure

theorem deleteBackupCollection_keeps (name : JsString) :
    Script.Keeps rowsWorld (OwnRows key) P (deleteBackupCollection name) := by
  refine Script.Keeps.bind perform_keeps fun existing => ?_
  cases existing with
  | none => exact Script.Keeps.pure
  | some row => exact perform_keeps

end asks

/-! ## Calls -/

section calls

variable {key : JsString} {rows : Rows}

theorem deleteInstance_keeps (key : JsString) :
    Script.Keeps rowsWorld (OwnRows key) (Childless key) (delete .instances key) := by
  intro rows h
  refine Script.Safe.bind (getByName_safe rfl (fun row hrow _ => ?_) (fun _ => h) fun _ => h)
  refine rows_safe ⟨row, hrow, rfl⟩ (fun _ _ => ?_) fun _ => h
  exact ⟨h.deleteInstance row.id, fun _ => h.deleteInstance row.id⟩

theorem createInstanceRow_keeps (key : JsString) (data : InstanceData) :
    Script.Keeps rowsWorld (OwnRows key) (Childless key) (create .instances ⟨key, data⟩) := by
  intro rows h
  refine Script.Safe.bind (getByName_safe rfl (fun _ _ _ => h) (fun _ => ?_) fun _ => h)
  refine rows_safe ⟨rfl, trivial⟩ (fun _ hfresh => ?_) fun _ => h
  exact ⟨h.createInstance hfresh, fun _ => h.createInstance hfresh⟩

theorem rollback_keeps (key backupCollectionName : JsString)
    (isInstancePersisted wasBackupCollectionCreatedHere : Bool) :
    Script.Keeps rowsWorld (OwnRows key) (Childless key)
      (rollback key backupCollectionName isInstancePersisted wasBackupCollectionCreatedHere) := by
  have hrow : Script.Keeps rowsWorld (OwnRows key) (Childless key) (do
      if isInstancePersisted then
        let _ ← delete .instances key) := by
    cases isInstancePersisted with
    | false => exact Script.Keeps.pure
    | true => exact (deleteInstance_keeps key).bind fun _ => Script.Keeps.pure
  refine (onPlane_keeps _).bind fun _ => ?_
  cases wasBackupCollectionCreatedHere with
  | false => exact hrow
  | true => exact (deleteBackupCollection_keeps _).bind fun _ => hrow

theorem persistInstance_keeps (path : InstancePath) (uid : JsString) (deletionProtectionEnabled : Bool)
    (endpoint : ValkeyEndpoint) :
    Script.Keeps rowsWorld (OwnRows (buildInstanceName path)) (Childless (buildInstanceName path))
      (persistInstance path uid deletionProtectionEnabled endpoint) := by
  have hundo : ∀ (α : Type) isInstancePersisted wasBackupCollectionCreatedHere (error : Thrown),
      Script.Keeps rowsWorld (OwnRows (buildInstanceName path)) (Childless (buildInstanceName path))
        (do
          rollback (buildInstanceName path) (buildBackupCollectionName path) isInstancePersisted
            wasBackupCollectionCreatedHere
          throw error : InstanceScript α) :=
    fun α _ _ _ => (rollback_keeps _ _ _ _).bind fun _ => Script.Keeps.throw
  refine ((createInstanceRow_keeps _ _).catching (hundo _ _ _)).bind fun _ => ?_
  refine ((createBackupCollectionIfMissing_keeps _ _ _).catching (hundo _ _ _)).bind fun _ => ?_
  exact (createOperation_keeps _ _ _ _ _).catching (hundo _ _ _)

/-- An instance that is not there has no users. -/
theorem childless_of_absent (h : InstancePart key rows) (habsent : ∀ row ∈ rows .instances, row.name ≠ key) :
    Childless key rows := by
  refine ⟨h, List.eq_nil_iff_forall_not_mem.2 fun user huser => ?_⟩
  obtain ⟨existing, hexisting, -⟩ := h.referential.users user huser
  exact habsent existing hexisting (h.owned .instances existing hexisting)

theorem createInstance_safe (options : ValkeyProcessManagerOptions) (path : InstancePath)
    (deletionProtectionEnabled : Bool) (h : InstancePart (buildInstanceName path) rows) :
    Script.Safe rowsWorld (OwnRows (buildInstanceName path))
      (fun rows _ => InstancePart (buildInstanceName path) rows)
      (createInstanceExclusively options path deletionProtectionEnabled) rows := by
  refine Script.Safe.bind (getByName_safe rfl (fun _ _ _ => h) (fun habsent => ?_) fun _ => h)
  have hkeeps : Script.Keeps rowsWorld (OwnRows (buildInstanceName path)) (Childless (buildInstanceName path))
      (do
        let uid ← perform .randomUUID
        let endpoint ← onPlane (startServerForInstance options (buildInstanceName path))
        persistInstance path uid deletionProtectionEnabled endpoint) :=
    Script.Keeps.bind perform_keeps fun _ => (onPlane_keeps _).bind fun _ => persistInstance_keeps _ _ _ _
  exact (hkeeps rows (childless_of_absent h habsent)).mono fun _ _ hrows => hrows.1

/-- The tokens of a user are gone, unless the storage rejects that. -/
theorem deleteTokens_safe {name : JsString} {Q : Rows → Except Thrown ℕ → Prop} (howner : parentName name = key)
    (h : InstancePart key rows)
    (hdone : ∀ rows' n, InstancePart key rows' → rows'.tokensOf name = [] →
      (∀ kind ≠ .authTokens, rows' kind = rows kind) → Q rows' (.ok n))
    (hthrown : ∀ rows' thrown, InstancePart key rows' → Q rows' (.error thrown)) :
    Script.Safe rowsWorld (OwnRows key) Q (deleteAuthTokensForUser name) rows := by
  refine rows_safe howner (fun _ _ => ⟨hdone _ _ (h.deleteTokens _) ?_ ?_, fun thrown => ?_⟩)
    fun thrown => hthrown _ thrown h
  · refine List.filter_eq_nil_iff.2 fun token htoken hsame => ?_
    have hmem : token ∈ (rows .authTokens).filter fun token => token.data.tokenAuthUser ≠ name := htoken
    exact of_decide_eq_true (List.mem_filter.1 hmem).2 (of_decide_eq_true hsame)
  · exact fun kind hkind => Function.update_of_ne hkind _ _
  · exact hthrown _ thrown (h.deleteTokens _)

/-- A user whose tokens are gone is deleted, unless the storage rejects that. -/
theorem deleteUserRow_safe {user : Kind.tokenAuthUsers.Row} {Q : Rows → Except Thrown Bool → Prop}
    (h : InstancePart key rows) (huser : user ∈ rows .tokenAuthUsers) (hnone : rows.tokensOf user.name = [])
    (hdone : ∀ b, Q (rows.written 0 (.deleteById .tokenAuthUsers user.id)) (.ok b))
    (hthrown : ∀ rows' thrown, InstancePart key rows' → Q rows' (.error thrown)) :
    Script.Safe rowsWorld (OwnRows key) Q (perform (.rows (.deleteById .tokenAuthUsers user.id))) rows :=
  rows_safe ⟨user, huser, rfl⟩
    (fun _ _ => ⟨hdone _, fun thrown => hthrown _ thrown (h.deleteUser huser hnone)⟩)
    fun thrown => hthrown _ thrown h

/-- The users are deleted one after the other, each after its tokens. -/
theorem cascade_safe (users : List Kind.tokenAuthUsers.Row) (hids : (users.map Row.id).Nodup)
    (h : InstancePart key rows) (hmem : ∀ user ∈ users, user ∈ rows .tokenAuthUsers)
    (hall : ∀ user ∈ rows .tokenAuthUsers, user ∈ users) :
    Script.Safe rowsWorld (OwnRows key) (fun rows result => match result with
        | .ok _ => Childless key rows
        | .error _ => InstancePart key rows)
      (Script.forEach (fun user => do
        let _ ← deleteAuthTokensForUser user.name
        let _ ← (perform (.rows (.deleteById .tokenAuthUsers user.id)) : InstanceScript Bool)
        pure ()) users) rows := by
  induction users generalizing rows with
  | nil => exact ⟨h, List.eq_nil_iff_forall_not_mem.2 fun user huser => nomatch hall user huser⟩
  | cons user users ih =>
    obtain ⟨hfirst, hrest⟩ := List.forall_mem_cons.1 hmem
    rw [List.map_cons, List.nodup_cons] at hids
    have howner : parentName user.name = key := h.owned .tokenAuthUsers user hfirst
    refine Script.Safe.bind (Script.Safe.bind (deleteTokens_safe howner h (fun middle _ h hnone hsame => ?_)
      fun _ _ h => h))
    have husers : middle .tokenAuthUsers = rows .tokenAuthUsers := hsame _ nofun
    rw [← husers] at hfirst
    refine Script.Safe.bind (deleteUserRow_safe h hfirst hnone (fun _ => ?_) fun _ _ h => h)
    refine ih hids.2 (h.deleteUser hfirst hnone) (fun other hother => ?_) fun other hother => ?_
    · refine List.mem_filter.2 ⟨husers ▸ hrest other hother, decide_eq_true fun hsame => ?_⟩
      exact hids.1 (hsame ▸ List.mem_map_of_mem hother)
    · have hleft : other ∈ (middle .tokenAuthUsers).filter fun other => other.id ≠ user.id := hother
      obtain ⟨hother, hne⟩ := List.mem_filter.1 hleft
      rcases List.mem_cons.1 (hall other (husers ▸ hother)) with rfl | hother
      · exact absurd rfl (of_decide_eq_true hne)
      · exact hother

theorem deleteUsers_safe (h : InstancePart key rows) :
    Script.Safe rowsWorld (OwnRows key) (fun rows result => match result with
        | .ok _ => Childless key rows
        | .error _ => InstancePart key rows) (deleteTokenAuthUsersForInstance key) rows := by
  refine Script.Safe.bind (rows_safe rfl (fun _ _ => ⟨?_, fun _ => h⟩) fun _ => h)
  refine cascade_safe (rows.usersOf key) ((h.ids .tokenAuthUsers).sublist (List.filter_sublist.map _)) h
    (fun user huser => (List.mem_filter.1 huser).1) fun user huser => List.mem_filter.2 ⟨huser, ?_⟩
  exact decide_eq_true ((h.names .tokenAuthUsers user huser).trans (h.owned .tokenAuthUsers user huser))

theorem deleteInstance_safe (h : InstancePart key rows) :
    Script.Safe rowsWorld (OwnRows key) (fun rows _ => InstancePart key rows)
      (deleteInstanceExclusively key) rows := by
  refine Script.Safe.bind (Script.Safe.bind (getByName_safe rfl (fun existing _ _ => ?_) (fun _ => h)
    fun _ => h))
  change Script.Safe _ _ _ (if existing.data.deletionProtectionEnabled = true then _ else _) rows
  split
  · exact h
  · refine Script.Safe.bind ((deleteUsers_safe h).mono fun rows result hresult => ?_)
    cases result with
    | error thrown => exact hresult
    | ok _ =>
      have hkeeps : Script.Keeps rowsWorld (OwnRows key) (Childless key) (do
          let _ ← delete .instances key
          onPlane (stopServerForInstance key)
          let path ← liftM (parseInstanceName key)
          createOperation path.project path.location key "delete" "Instance") :=
        (deleteInstance_keeps key).bind fun _ => (onPlane_keeps _).bind fun _ =>
          Script.Keeps.lift.bind fun _ => createOperation_keeps _ _ _ _ _
      exact (hkeeps rows hresult).mono fun _ _ hrows => hrows.1

theorem addTokenAuthUser_safe (h : InstancePart key rows) (tokenAuthUser : JsString) :
    Script.Safe rowsWorld (OwnRows key) (fun rows _ => InstancePart key rows)
      (addTokenAuthUserExclusively key tokenAuthUser) rows := by
  refine Script.Safe.bind (Script.Safe.bind (getByName_safe rfl (fun existing hexisting _ => ?_) (fun _ => h)
    fun _ => h))
  refine Script.Safe.bind ?_
  cases hparse : parseInstanceName key with
  | error thrown => exact h
  | ok path =>
    have howner : parentName (buildTokenAuthUserName ⟨path, extractResourceId tokenAuthUser⟩) = key :=
      (parentName_user _ (slash_notMem_extractResourceId tokenAuthUser)).trans
        (name_of_parseInstance hparse)
    refine Script.Safe.bind (getByName_safe howner (fun _ _ _ => h) (fun _ => ?_) fun _ => h)
    refine Script.Safe.bind (Script.Safe.bind (getByName_safe howner (fun _ _ _ => h) (fun _ => ?_)
      fun _ => h))
    refine rows_safe ⟨howner, howner.symm⟩ (fun _ hfresh => ?_) fun _ => h
    have hcreated := h.createUser hexisting howner hfresh
    exact ⟨createOperation_keeps _ _ _ _ _ _ hcreated, fun _ => hcreated⟩

theorem deleteTokenAuthUser_safe {name : JsString} (howner : parentName name = key)
    (h : InstancePart key rows) (force : Bool) :
    Script.Safe rowsWorld (OwnRows key) (fun rows _ => InstancePart key rows)
      (deleteTokenAuthUserExclusively name force) rows := by
  refine Script.Safe.bind (Script.Safe.bind (getByName_safe howner (fun _ _ _ => ?_) (fun _ => h) fun _ => h))
  refine Script.Safe.bind (rows_safe howner (fun _ _ => ⟨?_, fun _ => h⟩) fun _ => h)
  dsimp only
  split
  · exact h
  · refine Script.Safe.bind (deleteTokens_safe howner h (fun rows _ h hnone _ => ?_) fun _ _ h => h)
    refine Script.Safe.bind (Script.Safe.bind (getByName_safe howner (fun user huser hname => ?_)
      (fun _ => ?_) fun _ => h))
    · refine deleteUserRow_safe h huser (hname ▸ hnone) (fun _ => ?_) fun _ _ h => h
      exact Script.Keeps.lift.bind (fun _ => createOperation_keeps _ _ _ _ _) _
        (h.deleteUser huser (hname ▸ hnone))
    · exact Script.Keeps.lift.bind (fun _ => createOperation_keeps _ _ _ _ _) _ h

theorem addAuthToken_safe {tokenAuthUserName : JsString} (howner : parentName tokenAuthUserName = key)
    (h : InstancePart key rows) (authTokenId : JsString) :
    Script.Safe rowsWorld (OwnRows key) (fun rows _ => InstancePart key rows)
      (addAuthTokenExclusively tokenAuthUserName authTokenId) rows := by
  refine Script.Safe.bind (Script.Safe.bind (getByName_safe howner (fun user huser hname => ?_) (fun _ => h)
    fun _ => h))
  refine Script.Safe.bind ?_
  cases hparse : parseTokenAuthUserName tokenAuthUserName with
  | error thrown => exact h
  | ok path =>
    have hparent : parentName (buildAuthTokenName ⟨path, extractResourceId authTokenId⟩) =
        tokenAuthUserName :=
      (parentName_token _ (slash_notMem_extractResourceId authTokenId)).trans
        (name_of_parseTokenAuthUser hparse).1
    have hkey : Kind.authTokens.owner (buildAuthTokenName ⟨path, extractResourceId authTokenId⟩) = key :=
      (congrArg parentName hparent).trans howner
    refine Script.Safe.bind (getByName_safe hkey (fun _ _ _ => h) (fun _ => ?_) fun _ => h)
    have huuid : Script.Keeps rowsWorld (OwnRows key) (· = rows) (perform .randomUUID) := perform_keeps
    refine Script.Safe.bind ((huuid rows rfl).mono ?_)
    rintro _ (thrown | token) rfl
    · exact h
    · refine Script.Safe.bind (Script.Safe.bind (getByName_safe hkey (fun _ _ _ => h) (fun _ => ?_)
        fun _ => h))
      subst hname
      refine rows_safe ⟨hkey, hparent.symm⟩ (fun _ hfresh => ?_) fun _ => h
      have hcreated := h.createToken huser hparent token hfresh
      exact ⟨createOperation_keeps _ _ _ _ _ _ hcreated, fun _ => hcreated⟩

theorem deleteAuthToken_safe {name : JsString} (howner : parentName (parentName name) = key)
    (h : InstancePart key rows) (parsedName : AuthTokenPath) :
    Script.Safe rowsWorld (OwnRows key) (fun rows _ => InstancePart key rows)
      (deleteAuthTokenExclusively name parsedName) rows := by
  refine Script.Safe.bind (getByName_safe howner (fun _ _ _ => ?_) (fun _ => h) fun _ => h)
  refine Script.Safe.bind (Script.Safe.bind (getByName_safe howner (fun token htoken _ => ?_) (fun _ => ?_)
    fun _ => h))
  · have hdeleted := h.deleteTokens fun other => other.id ≠ token.id
    refine rows_safe ⟨token, htoken, rfl⟩ (fun _ _ => ?_) fun _ => h
    exact ⟨createOperation_keeps _ _ _ _ _ _ hdeleted, fun _ => hdeleted⟩
  · exact createOperation_keeps _ _ _ _ _ _ h

end calls

/-! ## Runs -/

abbrev MemoryMachine := Exclusive Ask Answer Thrown OperationRecord MemoryStore

abbrev MemoryEvent := ExclusiveEvent Ask Answer Thrown OperationRecord Outside

/-- The calls under the mutex that the services share. -/
def CallStep (options : ValkeyProcessManagerOptions) : MemoryMachine → MemoryEvent → MemoryMachine → Prop :=
  Exclusive.Step memoryWorld (Calls options)

theorem call_safe {options : ValkeyProcessManagerOptions} {key : JsString} {rows : Rows}
    {script : InstanceScript OperationRecord} (hcall : Calls options key script)
    (h : InstancePart key rows) :
    Script.Safe rowsWorld (OwnRows key) (fun rows _ => InstancePart key rows) script rows := by
  obtain ⟨request, hrequest⟩ := hcall
  cases request with
  | createInstance path deletionProtectionEnabled =>
    simp only [InstanceRequest.call] at hrequest
    split at hrequest
    · obtain ⟨rfl, rfl⟩ := Prod.mk.inj (Except.ok.inj hrequest)
      exact createInstance_safe options path deletionProtectionEnabled h
    · cases hrequest
  | deleteInstance name =>
    obtain ⟨rfl, rfl⟩ := Prod.mk.inj (Except.ok.inj hrequest)
    exact deleteInstance_safe h
  | addTokenAuthUser name parsed =>
    cases parsed with
    | error message => cases hrequest
    | ok tokenAuthUser =>
      obtain ⟨rfl, rfl⟩ := Prod.mk.inj (Except.ok.inj hrequest)
      exact addTokenAuthUser_safe h tokenAuthUser
  | deleteTokenAuthUser name force =>
    rw [InstanceRequest.call] at hrequest
    cases hparse : parseTokenAuthUserName name with
    | error thrown =>
      rw [hparse] at hrequest
      cases hrequest
    | ok path =>
      rw [hparse] at hrequest
      obtain ⟨rfl, rfl⟩ := Prod.mk.inj (Except.ok.inj hrequest)
      exact deleteTokenAuthUser_safe (name_of_parseTokenAuthUser hparse).2 h force
  | addAuthToken name parsed =>
    cases parsed with
    | error message => cases hrequest
    | ok authTokenId =>
      simp only [InstanceRequest.call] at hrequest
      cases hparse : parseTokenAuthUserName name with
      | error thrown =>
        rw [hparse] at hrequest
        cases hrequest
      | ok path =>
        rw [hparse] at hrequest
        obtain ⟨rfl, rfl⟩ := Prod.mk.inj (Except.ok.inj hrequest)
        exact addAuthToken_safe (name_of_parseTokenAuthUser hparse).2 h authTokenId
  | deleteAuthToken name =>
    rw [InstanceRequest.call] at hrequest
    cases hparse : parseAuthTokenName name with
    | error thrown =>
      rw [hparse] at hrequest
      cases hrequest
    | ok path =>
      rw [hparse] at hrequest
      obtain ⟨rfl, rfl⟩ := Prod.mk.inj (Except.ok.inj hrequest)
      exact deleteAuthToken_safe (name_of_parseAuthToken hparse) h path

theorem referential_of_parts {rows : Rows} (h : ∀ key, InstancePart key (rows.part key)) :
    Referential rows := by
  have hmem : ∀ kind, ∀ row ∈ rows kind, row ∈ rows.part (kind.owner row.name) kind :=
    fun kind row hrow => mem_part.2 ⟨hrow, rfl⟩
  refine ⟨fun token htoken => ?_, fun user huser => ?_⟩
  · obtain ⟨user, huser, hsame⟩ := (h _).referential.tokens token (hmem .authTokens token htoken)
    exact ⟨user, (mem_part.1 huser).1, hsame⟩
  · obtain ⟨existing, hexisting, hsame⟩ := (h _).referential.users user (hmem .tokenAuthUsers user huser)
    exact ⟨existing, (mem_part.1 hexisting).1, hsame⟩

/-- **Tokens have users, and users instances**, whenever no call is in flight. -/
theorem referential_kept (options : ValkeyProcessManagerOptions) (events : List MemoryEvent)
    (machine : MemoryMachine)
    (hrun : Run (CallStep options) (Exclusive.start MemoryStore.empty) events machine)
    (hanswered : machine.AllAnswered) : Referential machine.shared.rows := by
  have hempty : ∀ key, InstancePart key (Rows.part key MemoryStore.empty.rows) := fun key =>
    ⟨nofun, nofun, fun _ => List.nodup_nil, nofun, nofun⟩
  have hholds : Exclusive.Holds rowsWorld (fun key store => Rows.part key store.rows) Sound OwnRows
      (Calls options) InstancePart machine :=
    Exclusive.Holds.run rows_separate (fun _ _ _ hcall h => call_safe hcall h) hrun
      (Exclusive.holds_start ⟨nofun, fun _ => List.nodup_nil, nofun⟩ hempty)
  exact referential_of_parts (hholds.allAnswered hanswered)

/-! ## A run -/

/-- An ask that is done. -/
def done : Outside := ⟨none, true, "5f3e", ⟨none, none, false, []⟩⟩

theorem metadataPorts_ordered : 6380 ≤ 6479 := by decide

/-- Without the data plane. -/
def metadataOnly : ValkeyProcessManagerOptions := ⟨false, 6380, 6479, metadataPorts_ordered⟩

def mainPath : InstancePath := ⟨"my-app", "us-central1", "main"⟩

def alicePath : TokenAuthUserPath := ⟨mainPath, "alice"⟩

/-- Requests on one instance, each with the number of its asks: the instance is deleted with a user and
a token, and created again. -/
def recreation : List (InstanceScript OperationRecord × ℕ) :=
  let main := buildInstanceName mainPath
  let alice := buildTokenAuthUserName alicePath
  [(createInstanceExclusively metadataOnly mainPath false, 10), (addTokenAuthUserExclusively main "alice", 6),
    (addAuthTokenExclusively alice "first", 7), (deleteInstanceExclusively main, 9),
    (createInstanceExclusively metadataOnly mainPath false, 8), (addTokenAuthUserExclusively main "bob", 6)]

def recreationEvents : List MemoryEvent :=
  recreation.zipIdx.flatMap fun entry =>
    Exclusive.alone entry.2 (buildInstanceName mainPath) entry.1.1 (List.replicate entry.1.2 done)

theorem calls_recreation {script : InstanceScript OperationRecord} {asks : ℕ}
    (h : (script, asks) ∈ recreation) : Calls metadataOnly (buildInstanceName mainPath) script := by
  simp only [recreation, List.mem_cons, List.not_mem_nil, or_false, Prod.mk.injEq] at h
  have hcreate : Calls metadataOnly (buildInstanceName mainPath)
      (createInstanceExclusively metadataOnly mainPath false) := ⟨.createInstance mainPath false, rfl⟩
  rcases h with ⟨rfl, -⟩ | ⟨rfl, -⟩ | ⟨rfl, -⟩ | ⟨rfl, -⟩ | ⟨rfl, -⟩ | ⟨rfl, -⟩
  · exact hcreate
  · exact ⟨.addTokenAuthUser (buildInstanceName mainPath) (.ok "alice"), rfl⟩
  · exact ⟨.addAuthToken (buildTokenAuthUserName alicePath) (.ok "first"), rfl⟩
  · exact ⟨.deleteInstance (buildInstanceName mainPath), rfl⟩
  · exact hcreate
  · exact ⟨.addTokenAuthUser (buildInstanceName mainPath) (.ok "bob"), rfl⟩

instance (store : MemoryStore) (ask : Ask) (outside : Outside) :
    Decidable (memoryWorld.Allows store ask outside) := inferInstanceAs (Decidable True)

theorem referential_kept_recreation : ∃ machine,
    Run (CallStep metadataOnly) (Exclusive.start MemoryStore.empty) recreationEvents machine ∧
      (machine.shared.rows .tokenAuthUsers).length = 1 ∧ Referential machine.shared.rows := by
  have hexists : ∃ machine,
      Run (CallStep metadataOnly) (Exclusive.start MemoryStore.empty) recreationEvents machine ∧
        decide ((machine.shared.rows .tokenAuthUsers).length = 1 ∧ machine.AllAnswered) = true := by
    refine Exclusive.exists_run (fun key script hcall => ?_) (by decide +kernel)
    obtain ⟨entry, hentry, hmem⟩ := List.mem_flatMap.1 hcall
    obtain ⟨rfl, rfl⟩ := Exclusive.mem_alone hmem
    exact calls_recreation (List.fst_mem_of_mem_zipIdx hentry)
  obtain ⟨machine, hrun, htest⟩ := hexists
  obtain ⟨hlength, hanswered⟩ := of_decide_eq_true htest
  exact ⟨machine, hrun, hlength, referential_kept metadataOnly _ machine hrun hanswered⟩

end Kinglet.Memorystore.Instances
