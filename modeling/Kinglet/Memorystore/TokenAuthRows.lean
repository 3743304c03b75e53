import Kinglet.Memorystore.InstanceService
import Kinglet.Shared.Exclusive
import Mathlib.Data.List.Nodup

/-!
# The rows of one instance

The name of a token auth user begins with that of its instance, and the name of an auth token with that of
its user. A call on an instance names rows of the instance only, so that the rows separate by instances.
-/

namespace Kinglet.Memorystore.Instances

open Js Library Storage Shared

/-! ## Parents -/

/-- A text up to its last slash. -/
def beforeSlash (text : JsString) : JsString := ((cutLast (unit '/') text).map Prod.fst).getD []

/-- A name without its last collection and identifier. -/
def parentName (name : JsString) : JsString := beforeSlash (beforeSlash name)

theorem beforeSlash_append {text last : JsString} (h : unit '/' ∉ last) :
    beforeSlash (text ++ unit '/' :: last) = text := by
  rw [beforeSlash, cutLast_append h]
  rfl

theorem parentName_append {name collection id : JsString} (hcollection : unit '/' ∉ collection)
    (hid : unit '/' ∉ id) : parentName (name ++ unit '/' :: collection ++ unit '/' :: id) = name := by
  rw [parentName, beforeSlash_append hid, beforeSlash_append hcollection]

/-- The name of the instance that a row belongs to. -/
def Kind.owner : Kind → JsString → JsString
  | .instances, name => name
  | .tokenAuthUsers, name => parentName name
  | .authTokens, name => parentName (parentName name)

/-- A row names the parent that its name begins with. -/
def Kind.Names : (kind : Kind) → JsString → kind.Data → Prop
  | .instances, _, _ => True
  | .tokenAuthUsers, name, data => data.inInstance = parentName name
  | .authTokens, name, data => data.tokenAuthUser = parentName name

theorem parentName_user (path : TokenAuthUserPath) (h : unit '/' ∉ path.tokenAuthUser) :
    parentName (buildTokenAuthUserName path) = buildInstanceName path.toInstancePath := by
  have hname : buildTokenAuthUserName path = buildInstanceName path.toInstancePath ++
      unit '/' :: js "tokenAuthUsers" ++ unit '/' :: path.tokenAuthUser := by
    simp [buildTokenAuthUserName, buildInstanceName, buildName, namePath, join, js]
  rw [hname]
  exact parentName_append (by decide) h

theorem parentName_token (path : AuthTokenPath) (h : unit '/' ∉ path.authToken) :
    parentName (buildAuthTokenName path) = buildTokenAuthUserName path.toTokenAuthUserPath := by
  have hname : buildAuthTokenName path = buildTokenAuthUserName path.toTokenAuthUserPath ++
      unit '/' :: js "authTokens" ++ unit '/' :: path.authToken := by
    simp [buildAuthTokenName, buildTokenAuthUserName, buildName, namePath, join, js]
  rw [hname]
  exact parentName_append (by decide) h

theorem name_of_parseInstance {name : JsString} {path : InstancePath}
    (h : parseInstanceName name = .ok path) : buildInstanceName path = name := by
  rw [parseInstanceName] at h
  split at h
  · next hparse =>
      obtain rfl := Except.ok.inj h
      exact buildName_of_parseName hparse
  · cases h

theorem name_of_parseTokenAuthUser {name : JsString} {path : TokenAuthUserPath}
    (h : parseTokenAuthUserName name = .ok path) :
    buildTokenAuthUserName path = name ∧ parentName name = buildInstanceName path.toInstancePath := by
  rw [parseTokenAuthUserName] at h
  split at h
  · next hparse =>
      obtain rfl := Except.ok.inj h
      have hname := buildName_of_parseName hparse
      refine ⟨hname, ?_⟩
      rw [← parentName_user]
      · exact congrArg parentName hname.symm
      · exact slash_notMem_of_parseName hparse (by simp)
  · cases h

theorem name_of_parseAuthToken {name : JsString} {path : AuthTokenPath}
    (h : parseAuthTokenName name = .ok path) :
    parentName (parentName name) = buildInstanceName path.toInstancePath := by
  rw [parseAuthTokenName] at h
  split at h
  · next project location instanceId tokenAuthUser authToken hparse =>
      obtain rfl := Except.ok.inj h
      have htoken : unit '/' ∉ authToken := slash_notMem_of_parseName hparse (by simp)
      have huser : unit '/' ∉ tokenAuthUser := slash_notMem_of_parseName hparse (by simp)
      let user : TokenAuthUserPath := ⟨⟨project, location, instanceId⟩, tokenAuthUser⟩
      have hname : buildAuthTokenName ⟨user, authToken⟩ = name := buildName_of_parseName hparse
      calc parentName (parentName name)
        _ = parentName (parentName (buildAuthTokenName ⟨user, authToken⟩)) := by rw [hname]
        _ = parentName (buildTokenAuthUserName user) := by rw [parentName_token ⟨user, authToken⟩ htoken]
        _ = buildInstanceName user.toInstancePath := parentName_user user huser
  · cases h

theorem slash_notMem_extractResourceId (nameOrId : JsString) : unit '/' ∉ extractResourceId nameOrId := by
  have hne : splitUnit (unit '/') nameOrId ≠ [] := List.splitOn_ne_nil (unit '/') nameOrId
  rw [extractResourceId, List.getLast?_eq_some_getLast hne]
  exact notMem_of_mem_splitUnit (List.getLast_mem hne)

/-! ## Parts -/

/-- The rows of one instance. -/
def Rows.part (key : JsString) (rows : Rows) : Rows :=
  fun kind => (rows kind).filter fun row => kind.owner row.name = key

/-- What a call on an instance may ask for. -/
def OwnRows (key : JsString) (rows : Rows) : Ask → Prop
  | .rows (.findFirst kind name) => kind.owner name = key
  | .rows (.create kind row) => kind.owner row.name = key ∧ kind.Names row.name row.data
  | .rows (.deleteById kind id) => ∃ row ∈ rows kind, row.id = id
  | .rows (.usersOf instanceName) => instanceName = key
  | .rows (.countTokensOf tokenAuthUser) | .rows (.deleteTokensOf tokenAuthUser) =>
      parentName tokenAuthUser = key
  | _ => True

/-- An ask of the rows, with what comes from outside the part; `other` answers the asks that are not about
the rows. -/
structure RowsInput where
  rejected : Option JsString
  applied : Bool
  id : ℕ
  other : (ask : Ask) → Except Thrown (Answer ask)

def Rows.handleAsk (rows : Rows) (ask : Ask) (input : RowsInput) : Rows × Except Thrown (Answer ask) :=
  match ask with
  | .rows ask => rows.handle ask input.rejected input.applied input.id
  | .findCollection _ | .createCollection _ | .deleteCollectionById _ | .createOperation _ | .randomUUID
  | .plane _ => (rows, input.other _)

/-- A new row gets an identifier of its own. -/
def Fresh (rows : Rows) (input : RowsInput) : Ask → Prop
  | .rows (.create kind _) => ∀ row ∈ rows kind, row.id ≠ input.id
  | _ => True

def rowsWorld : World Ask Answer Thrown Rows RowsInput :=
  ⟨Rows.handleAsk, fun rows ask input => Fresh rows input ask⟩

def memoryWorld : World Ask Answer Thrown MemoryStore Outside := ⟨MemoryStore.handle, fun _ _ _ => True⟩

/-- Identifiers are used once, and every row names the parent that its name begins with. -/
structure Sound (store : MemoryStore) : Prop where
  fresh : ∀ kind, ∀ row ∈ store.rows kind, row.id < store.nextId
  ids : ∀ kind, ((store.rows kind).map Row.id).Nodup
  names : ∀ kind, ∀ row ∈ store.rows kind, kind.Names row.name row.data

section parts

variable {rows : Rows} {key other : JsString} {ask : RowsAsk} {id : ℕ} {kind : Kind}

theorem mem_part {row : kind.Row} :
    row ∈ rows.part key kind ↔ row ∈ rows kind ∧ kind.owner row.name = key := by
  simp [Rows.part]

theorem part_update (new : List kind.Row) :
    Rows.part key (Function.update rows kind new) =
      Function.update (rows.part key) kind (new.filter fun row => kind.owner row.name = key) := by
  funext kind'
  by_cases hkind : kind' = kind
  · subst hkind
    simp [Rows.part]
  · simp [Rows.part, Function.update_of_ne hkind]

/-- What is removed from the rows is removed from a part. -/
theorem part_remove (keep : kind.Row → Bool) :
    Rows.part key (Function.update rows kind ((rows kind).filter keep)) =
      Function.update (rows.part key) kind ((rows.part key kind).filter keep) := by
  rw [part_update, List.filter_filter, Rows.part, List.filter_filter]
  exact congrArg _ (List.filter_congr fun row _ => Bool.and_comm ..)

/-- Where nothing of a part is removed, the part stays. -/
theorem part_remove_others {keep : kind.Row → Bool}
    (h : ∀ row ∈ rows kind, kind.owner row.name = other → keep row = true) :
    Rows.part other (Function.update rows kind ((rows kind).filter keep)) = rows.part other := by
  have hsame : (rows.part other kind).filter keep = rows.part other kind := by
    refine List.filter_eq_self.2 fun row hrow => ?_
    obtain ⟨hrow, howner⟩ := mem_part.1 hrow
    exact h row hrow howner
  rw [part_remove, hsame, Function.update_eq_self]

theorem written_part (hown : OwnRows key (rows.part key) (.rows ask)) :
    Rows.part key (rows.written id ask) = (rows.part key).written id ask := by
  cases ask with
  | create kind row =>
      have hnew : ([⟨id, row.name, row.data⟩] : List kind.Row).filter
          (fun row => kind.owner row.name = key) = [⟨id, row.name, row.data⟩] := by
        simp [show kind.owner row.name = key from hown.1]
      simp only [Rows.written, part_update, List.filter_append, hnew]
      rfl
  | deleteById kind id => exact part_remove _
  | deleteTokensOf tokenAuthUser => exact part_remove _
  | findFirst | usersOf | countTokensOf => rfl

/-- A row that has the identifier of a row of a part is of the part. -/
theorem owner_of_id (hids : ((rows kind).map Row.id).Nodup) (hown : ∃ row ∈ rows.part key kind, row.id = id)
    {row : kind.Row} (hrow : row ∈ rows kind) (hid : row.id = id) : kind.owner row.name = key := by
  obtain ⟨found, hfound, rfl⟩ := hown
  obtain ⟨hmem, howner⟩ := mem_part.1 hfound
  rw [List.inj_on_of_nodup_map hids hrow hmem hid]
  exact howner

theorem written_others (hids : ∀ kind, ((rows kind).map Row.id).Nodup)
    (hnames : ∀ kind, ∀ row ∈ rows kind, kind.Names row.name row.data)
    (hown : OwnRows key (rows.part key) (.rows ask)) (hne : other ≠ key) :
    Rows.part other (rows.written id ask) = rows.part other := by
  cases ask with
  | create kind row =>
      have hnew : ([⟨id, row.name, row.data⟩] : List kind.Row).filter
          (fun row => kind.owner row.name = other) = [] := by
        have howner : kind.owner row.name = key := hown.1
        simp [howner, hne.symm]
      simp only [Rows.written, part_update, List.filter_append, hnew, List.append_nil]
      exact Function.update_eq_self kind _
  | deleteById kind id =>
      refine part_remove_others fun row hrow howner => decide_eq_true fun hid => ?_
      exact hne (howner.symm.trans (owner_of_id (hids kind) hown hrow hid))
  | deleteTokensOf tokenAuthUser =>
      refine part_remove_others fun row hrow howner => decide_eq_true fun hsame => ?_
      have hparent : row.data.tokenAuthUser = parentName row.name := hnames .authTokens row hrow
      rw [hsame] at hparent
      exact hne (howner.symm.trans ((congrArg parentName hparent).symm.trans hown))
  | findFirst | usersOf | countTokensOf => rfl

/-- A filter that lets through what is looked for. -/
theorem filter_part {p : kind.Row → Bool}
    (h : ∀ row ∈ rows kind, p row = true → kind.owner row.name = key) :
    (rows.part key kind).filter p = (rows kind).filter p := by
  rw [Rows.part, List.filter_filter]
  refine List.filter_congr fun row hrow => ?_
  cases hp : p row with
  | false => rfl
  | true => simp [h row hrow hp]

theorem usersOf_part (hnames : ∀ kind, ∀ row ∈ rows kind, kind.Names row.name row.data) :
    (rows.part key).usersOf key = rows.usersOf key := by
  refine filter_part fun row hrow hsame => ?_
  have hparent : row.data.inInstance = parentName row.name := hnames .tokenAuthUsers row hrow
  exact hparent.symm.trans (of_decide_eq_true hsame)

theorem tokensOf_part (hnames : ∀ kind, ∀ row ∈ rows kind, kind.Names row.name row.data)
    {tokenAuthUser : JsString} (hown : parentName tokenAuthUser = key) :
    (rows.part key).tokensOf tokenAuthUser = rows.tokensOf tokenAuthUser := by
  refine filter_part fun row hrow hsame => ?_
  have hparent : row.data.tokenAuthUser = parentName row.name := hnames .authTokens row hrow
  rw [← hown, ← of_decide_eq_true hsame, hparent]
  rfl

theorem answered_part (hnames : ∀ kind, ∀ row ∈ rows kind, kind.Names row.name row.data)
    (hown : OwnRows key (rows.part key) (.rows ask)) :
    (rows.part key).answered id ask = rows.answered id ask := by
  cases ask with
  | findFirst kind name =>
      have hfilter : (rows.part key kind).filter (fun row => row.name = name) =
          (rows kind).filter fun row => row.name = name := by
        refine filter_part fun row _ hname => ?_
        rw [of_decide_eq_true hname]
        exact hown
      simp only [Rows.answered, ← List.head?_filter, hfilter]
  | create kind row => rfl
  | deleteById kind id =>
      obtain ⟨row, hrow, hid⟩ := hown
      have hany : ∀ found : List kind.Row, row ∈ found → (found.any fun row => row.id = id) = true :=
        fun found hfound => List.any_eq_true.2 ⟨row, hfound, decide_eq_true hid⟩
      exact (hany _ hrow).trans (hany _ (mem_part.1 hrow).1).symm
  | usersOf instanceName =>
      obtain rfl : instanceName = key := hown
      exact usersOf_part hnames
  | countTokensOf tokenAuthUser | deleteTokensOf tokenAuthUser =>
      exact congrArg List.length (tokensOf_part hnames hown)

theorem handle_part (hnames : ∀ kind, ∀ row ∈ rows kind, kind.Names row.name row.data)
    (hown : OwnRows key (rows.part key) (.rows ask)) (rejected : Option JsString) (applied : Bool) :
    Rows.part key (rows.handle ask rejected applied id).1 =
        ((rows.part key).handle ask rejected applied id).1 ∧
      (rows.handle ask rejected applied id).2 = ((rows.part key).handle ask rejected applied id).2 := by
  cases rejected with
  | none => exact ⟨written_part hown, congrArg Except.ok (answered_part hnames hown).symm⟩
  | some message =>
      cases applied with
      | true => exact ⟨written_part hown, rfl⟩
      | false => exact ⟨rfl, rfl⟩

/-- The rows after an ask: what there was, or what was asked for. -/
theorem handle_cases (rows : Rows) (ask : RowsAsk) (rejected : Option JsString) (applied : Bool) (id : ℕ) :
    rows.handle ask rejected applied id = (rows.written id ask, .ok (rows.answered id ask)) ∨
      ∃ thrown, rows.handle ask rejected applied id = (rows.written id ask, .error thrown) ∨
        rows.handle ask rejected applied id = (rows, .error thrown) := by
  cases rejected with
  | none => exact .inl rfl
  | some message =>
      cases applied with
      | true => exact .inr ⟨_, .inl rfl⟩
      | false => exact .inr ⟨_, .inr rfl⟩

/-- What holds of the rows before an ask and after what was asked for holds after the ask. -/
theorem handle_keeps {P : Rows → Prop} (rejected : Option JsString) (applied : Bool) (h : P rows)
    (hwritten : P (rows.written id ask)) : P (rows.handle ask rejected applied id).1 := by
  rcases handle_cases rows ask rejected applied id with hdone | ⟨thrown, hdone | hdone⟩
  · rwa [hdone]
  · rwa [hdone]
  · rwa [hdone]

end parts

/-! ## Separation -/

section separation

variable {store : MemoryStore} {key other : JsString}

theorem sound_written (h : Sound store) {ask : RowsAsk} (hown : OwnRows key (store.rows.part key) (.rows ask)) :
    Sound { store with rows := store.rows.written store.nextId ask, nextId := store.nextId + 1 } := by
  -- rows that are removed change nothing about the others
  have hremove : ∀ kind (keep : kind.Row → Bool),
      Sound { store with
        rows := Function.update store.rows kind ((store.rows kind).filter keep)
        nextId := store.nextId + 1 } := by
    intro kind keep
    have hsub : ∀ kind', (Function.update store.rows kind ((store.rows kind).filter keep) kind').Sublist
        (store.rows kind') := by
      intro kind'
      by_cases hkind : kind' = kind
      · subst hkind
        rw [Function.update_self]
        exact List.filter_sublist
      · rw [Function.update_of_ne hkind]
    exact ⟨fun kind row hrow => Nat.lt_succ_of_lt (h.fresh kind row ((hsub kind).subset hrow)),
      fun kind => (h.ids kind).sublist ((hsub kind).map _),
      fun kind row hrow => h.names kind row ((hsub kind).subset hrow)⟩
  have hsame : Sound { store with nextId := store.nextId + 1 } :=
    ⟨fun kind row hrow => Nat.lt_succ_of_lt (h.fresh kind row hrow), h.ids, h.names⟩
  cases ask with
  | deleteById kind id => exact hremove kind _
  | deleteTokensOf tokenAuthUser => exact hremove .authTokens _
  | findFirst | usersOf | countTokensOf => exact hsame
  | create kind new =>
      have hcreate : ∀ kind', (∀ row ∈ store.rows.written store.nextId (.create kind new) kind',
          row.id < store.nextId + 1 ∧ kind'.Names row.name row.data) ∧
            ((store.rows.written store.nextId (.create kind new) kind').map Row.id).Nodup := by
        intro kind'
        by_cases hkind : kind' = kind
        · subst hkind
          simp only [Rows.written, Function.update_self]
          constructor
          · intro row hrow
            rcases List.mem_append.1 hrow with hrow | hrow
            · exact ⟨Nat.lt_succ_of_lt (h.fresh _ row hrow), h.names _ row hrow⟩
            · obtain rfl := List.mem_singleton.1 hrow
              exact ⟨Nat.lt_succ_self _, hown.2⟩
          · rw [List.map_append, List.nodup_append]
            refine ⟨h.ids _, List.nodup_singleton _, ?_⟩
            rintro _ hid _ hnew rfl
            obtain ⟨row, hrow, hid⟩ := List.mem_map.1 hid
            exact (h.fresh _ row hrow).ne (hid.trans (List.mem_singleton.1 hnew))
        · simp only [Rows.written, Function.update_of_ne hkind]
          exact ⟨fun row hrow => ⟨Nat.lt_succ_of_lt (h.fresh _ row hrow), h.names _ row hrow⟩, h.ids _⟩
      exact ⟨fun kind row hrow => ((hcreate kind).1 row hrow).1, fun kind => (hcreate kind).2,
        fun kind row hrow => ((hcreate kind).1 row hrow).2⟩

/-- A part sees an identifier for a new row, and the answers that are not about the rows. -/
def MemoryStore.seen (store : MemoryStore) (outside : Outside) : RowsInput :=
  ⟨outside.rejected, outside.applied, store.nextId, fun ask => (store.handle ask outside).2⟩

theorem MemoryStore.write_rows (store : MemoryStore) (ask : Ask) (outside : Outside) (answer : Answer ask) :
    (store.write ask outside answer).1.rows = store.rows ∧
      store.nextId ≤ (store.write ask outside answer).1.nextId := by
  rw [MemoryStore.write]
  cases outside.rejected with
  | none => exact ⟨rfl, Nat.le_succ _⟩
  | some message =>
      cases outside.applied with
      | true => exact ⟨rfl, Nat.le_succ _⟩
      | false => exact ⟨rfl, le_rfl⟩

/-- An ask that is not about the rows leaves them. -/
theorem MemoryStore.handle_rows (store : MemoryStore) {ask : Ask} (outside : Outside)
    (hask : ∀ rowsAsk, ask ≠ .rows rowsAsk) : (store.handle ask outside).1.rows = store.rows ∧
      store.nextId ≤ (store.handle ask outside).1.nextId := by
  cases ask with
  | rows ask => exact absurd rfl (hask ask)
  | findCollection | createCollection | deleteCollectionById | createOperation =>
      exact store.write_rows _ outside _
  | randomUUID | plane => exact ⟨rfl, le_rfl⟩

theorem sound_handle (h : Sound store) {ask : Ask} (hown : OwnRows key (store.rows.part key) ask)
    (outside : Outside) : Sound (store.handle ask outside).1 := by
  by_cases hask : ∃ rowsAsk, ask = .rows rowsAsk
  · obtain ⟨rowsAsk, rfl⟩ := hask
    have hsame : Sound { store with rows := store.rows, nextId := store.nextId + 1 } :=
      ⟨fun kind row hrow => Nat.lt_succ_of_lt (h.fresh kind row hrow), h.ids, h.names⟩
    exact handle_keeps (P := fun rows => Sound { store with rows := rows, nextId := store.nextId + 1 })
      outside.rejected outside.applied hsame (sound_written h hown)
  · obtain ⟨hrows, hnext⟩ := store.handle_rows outside fun rowsAsk hrows => hask ⟨rowsAsk, hrows⟩
    refine ⟨fun kind row hrow => ?_, fun kind => ?_, fun kind row hrow => ?_⟩
    · rw [hrows] at hrow
      exact (h.fresh kind row hrow).trans_le hnext
    · rw [hrows]
      exact h.ids kind
    · rw [hrows] at hrow
      exact h.names kind row hrow

/-- **The rows separate by instances.** -/
theorem rows_separate : Exclusive.Separates memoryWorld rowsWorld
    (fun key store => store.rows.part key) Sound OwnRows where
  keeps {key store ask outside} h hown _ := sound_handle h hown outside
  own {key store ask outside} h hown _ := by
    refine ⟨store.seen outside, ?_, ?_⟩
    · cases ask with
      | rows ask =>
          cases ask with
          | create kind row => exact fun row hrow => (h.fresh kind row (mem_part.1 hrow).1).ne
          | findFirst | deleteById | usersOf | countTokensOf | deleteTokensOf => trivial
      | findCollection | createCollection | deleteCollectionById | createOperation | randomUUID | plane =>
          trivial
    · cases ask with
      | rows ask => exact handle_part h.names hown outside.rejected outside.applied
      | findCollection | createCollection | deleteCollectionById | createOperation =>
          exact ⟨congrArg (Rows.part key) (store.write_rows _ outside _).1, rfl⟩
      | randomUUID | plane => exact ⟨rfl, rfl⟩
  others {key other store ask outside} h hown _ hne := by
    by_cases hask : ∃ rowsAsk, ask = .rows rowsAsk
    · obtain ⟨rowsAsk, rfl⟩ := hask
      exact handle_keeps (P := fun rows => rows.part other = store.rows.part other) outside.rejected
        outside.applied rfl (written_others h.ids h.names hown hne)
    · exact congrArg (Rows.part other)
        (store.handle_rows outside fun rowsAsk hrows => hask ⟨rowsAsk, hrows⟩).1

end separation

end Kinglet.Memorystore.Instances
