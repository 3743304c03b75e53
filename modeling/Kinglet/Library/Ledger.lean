import Kinglet.Library.Custody
import Mathlib.Data.List.Pairwise
import Mathlib.Logic.Function.Basic

/-!
# Ledgers

Rows that change and, beside them, a list of the changes of each name, which is written in steps of
its own. A call that changes a row has to record the change afterwards; a call that removes a row
first clears its list.

`Ledger.Step` says under which conditions such steps do no harm: changes are recorded in the order in
which they were made, and nothing is changed or recorded between a clearing and the removal. Then
each list is at all times a beginning of the row's changes, each change that is missing is owed by
exactly one call, and when no call is in flight the lists are complete.
-/

namespace Kinglet.Library

variable {ν γ : Type*}

/-- A row, with the changes made to it since it was inserted. -/
structure LedgerRow (ν γ : Type*) where
  id : ℕ
  name : ν
  changes : List γ

structure Ledger (ν γ : Type*) where
  rows : List (LedgerRow ν γ)
  records : ν → List γ
  nextId : ℕ

/-- What a call in flight knows and owes: a row it has found, a change it has to record, or a row it
has to remove. -/
inductive LedgerRole (ν γ : Type*) where
  | idle
  | found (id : ℕ) (name : ν)
  | recording (id : ℕ) (name : ν) (index : ℕ) (change : γ)
  | clearing (id : ℕ)

namespace Ledger

def insert (ledger : Ledger ν γ) (name : ν) (change : γ) : Ledger ν γ :=
  { ledger with
    rows := ledger.rows ++ [⟨ledger.nextId, name, [change]⟩]
    nextId := ledger.nextId + 1 }

def changeRow (id : ℕ) (change : γ) (row : LedgerRow ν γ) : LedgerRow ν γ :=
  if row.id = id then { row with changes := row.changes ++ [change] } else row

def change (ledger : Ledger ν γ) (id : ℕ) (change : γ) : Ledger ν γ :=
  { ledger with rows := ledger.rows.map (changeRow id change) }

def remove (ledger : Ledger ν γ) (id : ℕ) : Ledger ν γ :=
  { ledger with rows := ledger.rows.filter fun row => row.id ≠ id }

/-! ## The invariant -/

structure Inv (ledger : Ledger ν γ) : Prop where
  ids : ledger.rows.Pairwise fun row other => row.id ≠ other.id
  fresh : ∀ row ∈ ledger.rows, row.id < ledger.nextId
  names : ledger.rows.Pairwise fun row other => row.name ≠ other.name
  gone : ∀ name, (∀ row ∈ ledger.rows, row.name ≠ name) → ledger.records name = []
  kept : ∀ row ∈ ledger.rows, ledger.records row.name <+: row.changes

/-- What holds of a call of some role. -/
def Local (ledger : Ledger ν γ) : LedgerRole ν γ → Prop
  | .idle => True
  | .found id name => id < ledger.nextId ∧ ∀ row ∈ ledger.rows, row.id = id → row.name = name
  | .recording id name index change => ∃ row ∈ ledger.rows, row.id = id ∧ row.name = name ∧
      row.changes[index]? = some change ∧ (ledger.records row.name).length ≤ index
  | .clearing id => id < ledger.nextId ∧
      ∀ row ∈ ledger.rows, row.id = id → ledger.records row.name = []

/-- What holds of any two calls. -/
def Apart : LedgerRole ν γ → LedgerRole ν γ → Prop
  | .recording id _ index _, .recording id' _ index' _ => ¬(id = id' ∧ index = index')
  | .recording id _ _ _, .clearing id' => id ≠ id'
  | .clearing id, .recording id' _ _ _ => id ≠ id'
  | _, _ => True

theorem Apart.symm {role other : LedgerRole ν γ} (h : Apart role other) : Apart other role := by
  cases role <;> cases other
  case recording.recording => exact fun hsame => h ⟨hsame.1.symm, hsame.2.symm⟩
  case recording.clearing | clearing.recording => exact Ne.symm h
  all_goals trivial

/-- A change of a row, by its place. -/
structure Item where
  id : ℕ
  index : ℕ

def Present (ledger : Ledger ν γ) (item : Item) : Prop :=
  ∃ row ∈ ledger.rows, row.id = item.id ∧ item.index < row.changes.length

def Settled (ledger : Ledger ν γ) (item : Item) : Prop :=
  ∀ row ∈ ledger.rows, row.id = item.id → item.index < (ledger.records row.name).length

def Owes : LedgerRole ν γ → Item → Prop
  | .recording id _ index _, item => item = ⟨id, index⟩
  | .clearing id, item => item.id = id
  | _, _ => False

namespace Inv

variable {ledger ledger' : Ledger ν γ} {role role' : LedgerRole ν γ}
  {row other : LedgerRow ν γ} {change : γ} {name : ν}

theorem eq_of_id (h : ledger.Inv) (hrow : row ∈ ledger.rows) (hother : other ∈ ledger.rows)
    (hid : row.id = other.id) : row = other := by
  by_contra hne
  have : Std.Symm fun row other : LedgerRow ν γ => row.id ≠ other.id := ⟨fun _ _ h => h.symm⟩
  exact h.ids.forall hrow hother hne hid

theorem eq_of_name (h : ledger.Inv) (hrow : row ∈ ledger.rows) (hother : other ∈ ledger.rows)
    (hname : row.name = other.name) : row = other := by
  by_contra hne
  have : Std.Symm fun row other : LedgerRow ν γ => row.name ≠ other.name := ⟨fun _ _ h => h.symm⟩
  exact h.names.forall hrow hother hne hname

@[simp] theorem changeRow_id (id : ℕ) (change : γ) (row : LedgerRow ν γ) :
    (changeRow id change row).id = row.id := by
  unfold changeRow
  split <;> rfl

@[simp] theorem changeRow_name (id : ℕ) (change : γ) (row : LedgerRow ν γ) :
    (changeRow id change row).name = row.name := by
  unfold changeRow
  split <;> rfl

theorem prefix_changeRow (id : ℕ) (change : γ) (row : LedgerRow ν γ) :
    row.changes <+: (changeRow id change row).changes := by
  unfold changeRow
  split
  · exact List.prefix_append _ _
  · exact List.prefix_refl _

/-- A list that is a beginning stays one with the next change. -/
theorem prefix_concat {records changes : List γ} {change : γ} (h : records <+: changes)
    (hchange : changes[records.length]? = some change) : records ++ [change] <+: changes := by
  rw [List.prefix_iff_eq_take] at h
  have htake : changes.take (records.length + 1) = records ++ [change] := by
    rw [List.take_add_one, hchange, ← h]
    rfl
  rw [← htake]
  exact List.take_prefix _ _

/-- A role that owes nothing is apart from every other. -/
theorem apart_of_idle (other : LedgerRole ν γ) : Apart .idle other := by
  cases other <;> trivial

theorem apart_of_found (id : ℕ) (name : ν) (other : LedgerRole ν γ) : Apart (.found id name) other := by
  cases other <;> trivial

theorem spared_insert (h : ledger.Inv) (hother : Local ledger role) :
    Local (ledger.insert name change) role ∧ Apart (.recording ledger.nextId name 0 change) role := by
  cases role with
  | idle => exact ⟨trivial, trivial⟩
  | found id found =>
    refine ⟨⟨Nat.lt_succ_of_lt hother.1, fun row hrow hid => ?_⟩, trivial⟩
    rcases List.mem_append.1 hrow with hrow | hrow
    · exact hother.2 row hrow hid
    · obtain rfl := List.mem_singleton.1 hrow
      exact absurd hid (Nat.ne_of_gt hother.1)
  | recording id found index owed =>
    obtain ⟨row, hrow, hid, hname, howed, hlength⟩ := hother
    refine ⟨⟨row, List.mem_append_left _ hrow, hid, hname, howed, hlength⟩, fun hsame => ?_⟩
    have hfresh := h.fresh row hrow
    omega
  | clearing id =>
    refine ⟨⟨Nat.lt_succ_of_lt hother.1, fun row hrow hid => ?_⟩, Nat.ne_of_gt hother.1⟩
    rcases List.mem_append.1 hrow with hrow | hrow
    · exact hother.2 row hrow hid
    · obtain rfl := List.mem_singleton.1 hrow
      exact absurd hid (Nat.ne_of_gt hother.1)

theorem spared_change (h : ledger.Inv) (hrow : row ∈ ledger.rows) (hopen : role ≠ .clearing row.id)
    (hother : Local ledger role) :
    Local (ledger.change row.id change) role ∧
      Apart (.recording row.id row.name row.changes.length change) role := by
  cases role with
  | idle => exact ⟨trivial, trivial⟩
  | found id found =>
    refine ⟨⟨hother.1, fun changed hchanged hid => ?_⟩, trivial⟩
    obtain ⟨before, hbefore, rfl⟩ := List.mem_map.1 hchanged
    rw [changeRow_id] at hid
    rw [changeRow_name]
    exact hother.2 before hbefore hid
  | recording id found index owed =>
    obtain ⟨before, hbefore, hid, hname, howed, hlength⟩ := hother
    refine ⟨⟨changeRow row.id change before, List.mem_map_of_mem hbefore,
      (changeRow_id _ _ _).trans hid, (changeRow_name _ _ _).trans hname, ?_, ?_⟩, ?_⟩
    · obtain ⟨hindex, -⟩ := List.getElem?_eq_some_iff.1 howed
      obtain ⟨more, hmore⟩ := prefix_changeRow row.id change before
      rw [← hmore, List.getElem?_append_left hindex, howed]
    · rw [changeRow_name]
      exact hlength
    · rintro ⟨rfl, rfl⟩
      obtain rfl := h.eq_of_id hbefore hrow hid
      exact absurd howed (by simp)
  | clearing id =>
    refine ⟨⟨hother.1, fun changed hchanged hid => ?_⟩, fun hid => hopen (by rw [hid])⟩
    obtain ⟨before, hbefore, rfl⟩ := List.mem_map.1 hchanged
    rw [changeRow_id] at hid
    rw [changeRow_name]
    exact hother.2 before hbefore hid

theorem spared_remove {id : ℕ} (hother : Local ledger role) (hapart : Apart (.clearing id) role) :
    Local (ledger.remove id) role := by
  cases role with
  | idle => trivial
  | found other found =>
    exact ⟨hother.1, fun row hrow hid => hother.2 row (List.mem_filter.1 hrow).1 hid⟩
  | recording other found index owed =>
    obtain ⟨row, hmem, hid, hname, howed, hlength⟩ := hother
    refine ⟨row, List.mem_filter.2 ⟨hmem, ?_⟩, hid, hname, howed, hlength⟩
    have hne : row.id ≠ id := fun heq => hapart (heq.symm.trans hid)
    simpa using hne
  | clearing other =>
    exact ⟨hother.1, fun row hrow hid => hother.2 row (List.mem_filter.1 hrow).1 hid⟩

/-- An item that nothing happens to. -/
theorem passes_of_settled {item : Item} (howes : ¬Owes role item) (hpresent : Present ledger item)
    (hsettled : Settled ledger item → Settled ledger' item) :
    Settled ledger' item ∨ Owes role' item ∨
      Present ledger item ∧ ¬Settled ledger item ∧ ¬Owes role item := by
  by_cases h : Settled ledger item
  · exact .inl (hsettled h)
  · exact .inr (.inr ⟨hpresent, h, howes⟩)

end Inv

/-! ## Recording -/

variable [DecidableEq ν]

def record (ledger : Ledger ν γ) (name : ν) (change : γ) : Ledger ν γ :=
  { ledger with
    records := Function.update ledger.records name (ledger.records name ++ [change]) }

def clear (ledger : Ledger ν γ) (name : ν) : Ledger ν γ :=
  { ledger with records := Function.update ledger.records name [] }

section entries

variable {rows : List (LedgerRow ν γ)} {entries : List (ν × γ)} {nextId : ℕ}

/-- The ledger of a table of rows and a table of records, each with the name it belongs to. -/
def ofEntries (rows : List (LedgerRow ν γ)) (entries : List (ν × γ)) (nextId : ℕ) : Ledger ν γ where
  rows := rows
  records name := (entries.filter fun entry => entry.1 = name).map Prod.snd
  nextId := nextId

theorem ofEntries_append (name : ν) (change : γ) :
    ofEntries rows (entries ++ [(name, change)]) nextId =
      (ofEntries rows entries nextId).record name change := by
  have hrecords : (ofEntries rows (entries ++ [(name, change)]) nextId).records =
      Function.update (ofEntries rows entries nextId).records name
        ((ofEntries rows entries nextId).records name ++ [change]) := by
    funext other
    rcases eq_or_ne other name with rfl | hne
    · rw [Function.update_self]
      simp [ofEntries]
    · rw [Function.update_of_ne hne]
      simp [ofEntries, hne.symm]
  exact congrArg (fun records => (⟨rows, records, nextId⟩ : Ledger ν γ)) hrecords

theorem ofEntries_filter (name : ν) :
    ofEntries rows (entries.filter fun entry => entry.1 ≠ name) nextId =
      (ofEntries rows entries nextId).clear name := by
  have hrecords : (ofEntries rows (entries.filter fun entry => entry.1 ≠ name) nextId).records =
      Function.update (ofEntries rows entries nextId).records name [] := by
    funext other
    change ((entries.filter _).filter _).map _ = _
    rw [List.filter_filter]
    rcases eq_or_ne other name with rfl | hne
    · rw [Function.update_self, List.map_eq_nil_iff, List.filter_eq_nil_iff]
      simp
    · rw [Function.update_of_ne hne]
      refine congrArg (List.map Prod.snd) (List.filter_congr fun entry _ => ?_)
      by_cases h : entry.1 = other <;> simp [h, hne]
  exact congrArg (fun records => (⟨rows, records, nextId⟩ : Ledger ν γ)) hrecords

end entries

/-! ## Steps -/

/-- A step of a call of some role beside others. -/
inductive Step (ledger : Ledger ν γ) (others : List (LedgerRole ν γ)) :
    LedgerRole ν γ → Ledger ν γ → LedgerRole ν γ → Prop
  | stay (role : LedgerRole ν γ) : Step ledger others role ledger role
  | find {row : LedgerRow ν γ} (hrow : row ∈ ledger.rows) :
      Step ledger others .idle ledger (.found row.id row.name)
  | forget (id : ℕ) (name : ν) : Step ledger others (.found id name) ledger .idle
  | insert {name : ν} (change : γ) (hfree : ∀ row ∈ ledger.rows, row.name ≠ name) :
      Step ledger others .idle (ledger.insert name change) (.recording ledger.nextId name 0 change)
  | change {row : LedgerRow ν γ} {name : ν} (change : γ) (hrow : row ∈ ledger.rows)
      (hopen : .clearing row.id ∉ others) :
      Step ledger others (.found row.id name) (ledger.change row.id change)
        (.recording row.id row.name row.changes.length change)
  | record {row : LedgerRow ν γ} {index : ℕ} (change : γ) (hrow : row ∈ ledger.rows)
      (hindex : index = (ledger.records row.name).length) :
      Step ledger others (.recording row.id row.name index change) (ledger.record row.name change)
        .idle
  | clear {id : ℕ} {name : ν}
      (hstanding : ∀ row ∈ ledger.rows, row.id = id →
        ∀ index change, .recording id name index change ∉ others)
      (hgone : (∀ row ∈ ledger.rows, row.id ≠ id) → ledger.records name = []) :
      Step ledger others (.found id name) (ledger.clear name) (.clearing id)
  | remove (id : ℕ) : Step ledger others (.clearing id) (ledger.remove id) .idle

namespace Inv

variable {ledger ledger' : Ledger ν γ} {role role' : LedgerRole ν γ}
  {others : List (LedgerRole ν γ)} {row other : LedgerRow ν γ} {change : γ} {name : ν}

theorem step (h : ledger.Inv) (hlocal : Local ledger role)
    (hstep : Step ledger others role ledger' role') : ledger'.Inv := by
  cases hstep with
  | stay => exact h
  | find => exact h
  | forget => exact h
  | @insert name change hfree =>
    refine ⟨?_, ?_, ?_, fun other hother => ?_, fun row hrow => ?_⟩
    · refine List.pairwise_append.2 ⟨h.ids, List.pairwise_singleton _ _, fun row hrow new hnew => ?_⟩
      obtain rfl := List.mem_singleton.1 hnew
      exact Nat.ne_of_lt (h.fresh row hrow)
    · intro row hrow
      rcases List.mem_append.1 hrow with hrow | hrow
      · exact Nat.lt_succ_of_lt (h.fresh row hrow)
      · obtain rfl := List.mem_singleton.1 hrow
        exact Nat.lt_succ_self _
    · refine List.pairwise_append.2 ⟨h.names, List.pairwise_singleton _ _,
        fun row hrow new hnew => ?_⟩
      obtain rfl := List.mem_singleton.1 hnew
      exact hfree row hrow
    · exact h.gone other fun row hrow => hother row (List.mem_append_left _ hrow)
    · rcases List.mem_append.1 hrow with hrow | hrow
      · exact h.kept row hrow
      · obtain rfl := List.mem_singleton.1 hrow
        change ledger.records name <+: _
        rw [h.gone name hfree]
        exact List.nil_prefix
  | @change changed name change hchanged hopen =>
    refine ⟨?_, ?_, ?_, fun other hother => ?_, ?_⟩
    · exact List.pairwise_map.2 (h.ids.imp fun hne => by simpa using hne)
    · rintro row' hrow'
      obtain ⟨row, hrow, rfl⟩ := List.mem_map.1 hrow'
      rw [changeRow_id]
      exact h.fresh row hrow
    · exact List.pairwise_map.2 (h.names.imp fun hne => by simpa using hne)
    · refine h.gone other fun row hrow => ?_
      simpa using hother _ (List.mem_map_of_mem hrow)
    · rintro row' hrow'
      obtain ⟨row, hrow, rfl⟩ := List.mem_map.1 hrow'
      rw [changeRow_name]
      exact (h.kept row hrow).trans (prefix_changeRow _ _ row)
  | @record recorded index change hrecorded hindex =>
    obtain ⟨row, hrow, hid, -, hchange, -⟩ := hlocal
    obtain rfl := h.eq_of_id hrow hrecorded hid
    refine ⟨h.ids, h.fresh, h.names, fun name hname => ?_, fun other hother => ?_⟩
    · have hne : name ≠ row.name := fun heq => hname row hrow heq.symm
      change Function.update ledger.records row.name _ name = []
      rw [Function.update_of_ne hne]
      exact h.gone name hname
    · change Function.update ledger.records row.name _ other.name <+: _
      rcases eq_or_ne other.name row.name with hname | hname
      · obtain rfl := h.eq_of_name hother hrow hname
        rw [Function.update_self]
        exact prefix_concat (h.kept other hrow) (hindex ▸ hchange)
      · rw [Function.update_of_ne hname]
        exact h.kept other hother
  | @clear id name hstanding hgone =>
    refine ⟨h.ids, h.fresh, h.names, fun other hother => ?_, fun row hrow => ?_⟩
    · change Function.update ledger.records name [] other = []
      rcases eq_or_ne other name with rfl | hne
      · rw [Function.update_self]
      · rw [Function.update_of_ne hne]
        exact h.gone other hother
    · change Function.update ledger.records name [] row.name <+: _
      rcases eq_or_ne row.name name with hname | hname
      · rw [hname, Function.update_self]
        exact List.nil_prefix
      · rw [Function.update_of_ne hname]
        exact h.kept row hrow
  | remove id =>
    refine ⟨h.ids.sublist List.filter_sublist, fun row hrow => h.fresh row (List.mem_filter.1 hrow).1,
      h.names.sublist List.filter_sublist, fun name hname => ?_,
      fun row hrow => h.kept row (List.mem_filter.1 hrow).1⟩
    change ledger.records name = []
    by_contra hne
    refine hne (h.gone name fun row hrow hrowName => ?_)
    -- The row of that name is the one that goes, and its list has been cleared.
    have hid : row.id = id := by
      by_contra hid
      exact hname row (List.mem_filter.2 ⟨hrow, by simpa using hid⟩) hrowName
    rw [← hrowName] at hne
    exact hne (hlocal.2 row hrow hid)

/-- What a call of a role knows after its step. -/
theorem own (h : ledger.Inv) (hlocal : Local ledger role)
    (hstep : Step ledger others role ledger' role') : Local ledger' role' := by
  cases hstep with
  | stay => exact hlocal
  | @find row hrow =>
    refine ⟨h.fresh row hrow, fun other hother hid => ?_⟩
    rw [h.eq_of_id hother hrow hid]
  | forget => trivial
  | @insert name change hfree =>
    refine ⟨⟨ledger.nextId, name, [change]⟩, List.mem_append_right _ (List.mem_singleton_self _), rfl,
      rfl, rfl, ?_⟩
    change (ledger.records name).length ≤ 0
    rw [h.gone name hfree]
    exact Nat.le_refl 0
  | @change row name change hrow hopen =>
    refine ⟨changeRow row.id change row, List.mem_map_of_mem hrow, changeRow_id _ _ _,
      changeRow_name _ _ _, ?_, ?_⟩
    · rw [changeRow, if_pos rfl]
      exact List.getElem?_concat_length
    · rw [changeRow_name]
      exact (h.kept row hrow).length_le
  | record => trivial
  | @clear id name hstanding hgone =>
    refine ⟨hlocal.1, fun row hrow hid => ?_⟩
    change Function.update ledger.records name [] row.name = []
    rw [hlocal.2 row hrow hid, Function.update_self]
  | remove => trivial

theorem spared_record (h : ledger.Inv) (hrow : row ∈ ledger.rows)
    (hother : Local ledger role)
    (hapart : Apart (.recording row.id row.name (ledger.records row.name).length change) role) :
    Local (ledger.record row.name change) role := by
  cases role with
  | idle => trivial
  | found id found => exact hother
  | recording id found index owed =>
    obtain ⟨other, hmem, hid, hfound, howed, hlength⟩ := hother
    refine ⟨other, hmem, hid, hfound, howed, ?_⟩
    change (Function.update ledger.records row.name _ other.name).length ≤ index
    rcases eq_or_ne other.name row.name with hname | hname
    · obtain rfl := h.eq_of_name hmem hrow hname
      have hne : (ledger.records other.name).length ≠ index := fun heq => hapart ⟨hid, heq⟩
      rw [Function.update_self, List.length_append, List.length_singleton]
      omega
    · rw [Function.update_of_ne hname]
      exact hlength
  | clearing id =>
    refine ⟨hother.1, fun other hmem hid => ?_⟩
    change Function.update ledger.records row.name _ other.name = []
    have hname : other.name ≠ row.name := by
      intro hname
      obtain rfl := h.eq_of_name hmem hrow hname
      exact hapart hid
    rw [Function.update_of_ne hname]
    exact hother.2 other hmem hid

theorem spared_clear (hother : Local ledger role) : Local (ledger.clear name) role := by
  have hshorter (other : ν) : (ledger.clear name).records other = [] ∨
      (ledger.clear name).records other = ledger.records other := by
    change Function.update ledger.records name [] other = [] ∨ Function.update _ _ _ other = _
    rcases eq_or_ne other name with rfl | hne
    · exact .inl (Function.update_self _ _ _)
    · exact .inr (Function.update_of_ne hne _ _)
  cases role with
  | idle => trivial
  | found id found => exact hother
  | recording id found index owed =>
    obtain ⟨other, hmem, hid, hfound, howed, hlength⟩ := hother
    refine ⟨other, hmem, hid, hfound, howed, ?_⟩
    rcases hshorter other.name with hempty | hsame
    · rw [hempty]
      exact Nat.zero_le _
    · rw [hsame]
      exact hlength
  | clearing id =>
    refine ⟨hother.1, fun other hmem hid => ?_⟩
    rcases hshorter other.name with hempty | hsame
    · exact hempty
    · exact hsame.trans (hother.2 other hmem hid)

/-- What a call of another role still knows. -/
theorem spared (h : ledger.Inv) {other : LedgerRole ν γ} (hlocal : Local ledger role)
    (hother : Local ledger other)
    (hmem : other ∈ others) (hapart : Apart role other)
    (hstep : Step ledger others role ledger' role') : Local ledger' other ∧ Apart role' other := by
  cases hstep with
  | stay => exact ⟨hother, hapart⟩
  | find => exact ⟨hother, apart_of_found _ _ other⟩
  | forget => exact ⟨hother, apart_of_idle other⟩
  | insert change hfree => exact h.spared_insert hother
  | change change hrow hopen => exact h.spared_change hrow (fun heq => hopen (heq ▸ hmem)) hother
  | record change hrow hindex =>
    subst hindex
    exact ⟨h.spared_record hrow hother hapart, apart_of_idle other⟩
  | @clear id name hstanding hgone =>
    refine ⟨spared_clear hother, ?_⟩
    cases other with
    | recording owing found index owed =>
      rintro rfl
      obtain ⟨row, hrow, hid, rfl, -⟩ := hother
      obtain rfl := hlocal.2 row hrow hid
      exact hstanding row hrow hid index owed hmem
    | idle | found | clearing => trivial
  | remove id => exact ⟨spared_remove hother hapart, apart_of_idle other⟩

/-- What a step leaves to be recorded: the call that runs answers for it, or somebody did before. -/
theorem passes (h : ledger.Inv) (hlocal : Local ledger role)
    (hstep : Step ledger others role ledger' role') (item : Item) (hpresent : Present ledger' item) :
    Settled ledger' item ∨ Owes role' item ∨
      Present ledger item ∧ ¬Settled ledger item ∧ ¬Owes role item := by
  cases hstep with
  | stay =>
    by_cases howes : Owes role item
    · exact .inr (.inl howes)
    · exact passes_of_settled howes hpresent id
  | find => exact passes_of_settled id hpresent id
  | forget => exact passes_of_settled id hpresent id
  | insert change hfree =>
    obtain ⟨row, hrow, hid, hindex⟩ := hpresent
    rcases List.mem_append.1 hrow with hrow | hrow
    · refine passes_of_settled id ⟨row, hrow, hid, hindex⟩ fun hsettled other hother hotherId => ?_
      rcases List.mem_append.1 hother with hother | hother
      · exact hsettled other hother hotherId
      · obtain rfl := List.mem_singleton.1 hother
        exact absurd (hotherId.trans hid.symm) (Nat.ne_of_gt (h.fresh row hrow))
    · obtain rfl := List.mem_singleton.1 hrow
      obtain ⟨id, index⟩ := item
      obtain rfl : ledger.nextId = id := hid
      obtain rfl : index = 0 := Nat.lt_one_iff.1 hindex
      exact .inr (.inl rfl)
  | @change row name change hrow hopen =>
    obtain ⟨changed, hchanged, hid, hindex⟩ := hpresent
    obtain ⟨before, hbefore, rfl⟩ := List.mem_map.1 hchanged
    rw [changeRow_id] at hid
    rcases Nat.lt_or_ge item.index before.changes.length with hlt | hge
    · refine passes_of_settled id ⟨before, hbefore, hid, hlt⟩ fun hsettled other hother hotherId => ?_
      obtain ⟨earlier, hearlier, rfl⟩ := List.mem_map.1 hother
      rw [changeRow_id] at hotherId
      rw [changeRow_name]
      exact hsettled earlier hearlier hotherId
    · -- A place beyond the changes before is that of the new change.
      unfold changeRow at hindex
      split at hindex
      · next heq =>
          obtain rfl := h.eq_of_id hbefore hrow heq
          obtain ⟨id, index⟩ := item
          have hlast : index = before.changes.length := by
            rw [List.length_append, List.length_singleton] at hindex
            exact Nat.le_antisymm (Nat.lt_succ_iff.1 hindex) hge
          obtain rfl : before.id = id := hid
          obtain rfl := hlast
          exact .inr (.inl rfl)
      · exact absurd hindex (Nat.not_lt.2 hge)
  | @record row index change hrow hcount =>
    have hgrows : Settled ledger item → Settled (ledger.record row.name change) item := by
      intro hsettled other hother hid
      have hbefore := hsettled other hother hid
      change item.index < (Function.update ledger.records row.name _ other.name).length
      rcases eq_or_ne other.name row.name with hname | hname
      · rw [hname] at hbefore ⊢
        rw [Function.update_self, List.length_append]
        exact Nat.lt_of_lt_of_le hbefore (Nat.le_add_right _ _)
      · rwa [Function.update_of_ne hname]
    by_cases howes : Owes (.recording row.id row.name index change) item
    · obtain rfl : item = ⟨row.id, index⟩ := howes
      refine .inl fun other hother hid => ?_
      obtain rfl := h.eq_of_id hother hrow hid
      change index < (Function.update ledger.records other.name _ other.name).length
      rw [Function.update_self, List.length_append, hcount]
      exact Nat.lt_succ_self _
    · exact passes_of_settled howes hpresent hgrows
  | @clear id name hstanding hgone =>
    by_cases hid : item.id = id
    · exact .inr (.inl hid)
    · refine passes_of_settled False.elim hpresent fun hsettled row hrow hrowId => ?_
      have hbefore := hsettled row hrow hrowId
      change item.index < (Function.update ledger.records name [] row.name).length
      rcases eq_or_ne row.name name with hname | hname
      · -- Another row of the name stands there, so nothing was recorded yet.
        have hempty : ledger.records name = [] := by
          refine hgone fun other hother hotherId => ?_
          have hsame := h.eq_of_name hother hrow ((hlocal.2 other hother hotherId).trans hname.symm)
          rw [hsame] at hotherId
          exact hid (hrowId.symm.trans hotherId)
        rw [hname, hempty] at hbefore
        exact absurd hbefore (Nat.not_lt_zero _)
      · rwa [Function.update_of_ne hname]
  | remove id =>
    obtain ⟨row, hrow, hid, hindex⟩ := hpresent
    obtain ⟨hrow, hne⟩ := List.mem_filter.1 hrow
    refine passes_of_settled (fun howes => ?_) ⟨row, hrow, hid, hindex⟩ fun hsettled other hother =>
      hsettled other (List.mem_filter.1 hother).1
    exact absurd (hid.trans howes) (by simpa using hne)

end Inv

/-! ## Calls that keep a ledger -/

variable {σ ρ κ ι ω : Type*}

/-- The role of what a segment leaves of its call. -/
def roleAfter (role : κ → LedgerRole ν γ) : Progress κ ω → LedgerRole ν γ
  | .pending rest | .forked rest _ => role rest
  | .finished _ => .idle

/-- Calls whose allowed segments are steps of the ledger that the shared state shows. -/
structure Keeps (async : Async σ ρ κ ι ω) (view : σ → Ledger ν γ) (role : κ → LedgerRole ν γ)
    (Allowed : Pool σ κ ω → Move ρ ι → Prop) : Prop where
  begins : ∀ request, role (async.begin request) = .idle
  steps : ∀ pool i input call, (view pool.shared).Inv → Local (view pool.shared) (role call) →
    Allowed pool (.resume i input) → pool.calls[i]? = some call →
    Step (view pool.shared) ((pool.calls.eraseIdx i).map role) (role call)
      (view (async.segment pool.shared call input).1)
      (roleAfter role (async.segment pool.shared call input).2)
  alone : ∀ shared call input rest started,
    (async.segment shared call input).2 ≠ .forked rest started

def outline (view : σ → Ledger ν γ) (role : κ → LedgerRole ν γ) : Outline σ κ ω where
  Inv shared _ := (view shared).Inv
  Local shared call := Local (view shared) (role call)
  Pair call other := Apart (role call) (role other)
  symm := Apart.symm

def custody (view : σ → Ledger ν γ) (role : κ → LedgerRole ν γ) : Custody σ κ Item where
  Present shared := Present (view shared)
  Settled shared := Settled (view shared)
  Holds call := Owes (role call)

namespace Keeps

variable {async : Async σ ρ κ ι ω} {view : σ → Ledger ν γ} {role : κ → LedgerRole ν γ}
  {Allowed : Pool σ κ ω → Move ρ ι → Prop} {pool pool' : Pool σ κ ω} {moves : List (Move ρ ι)}

theorem outline_begins (h : Keeps async view role Allowed) :
    Outline.Begins async (outline view role) Allowed := by
  intro pool request _ _
  refine ⟨?_, fun other _ => ?_⟩
  · change Local (view pool.shared) (role (async.begin request))
    rw [h.begins request]
    trivial
  · change Apart (role other) (role (async.begin request))
    rw [h.begins request]
    exact (Inv.apart_of_idle _).symm

theorem outline_segments (h : Keeps async view role Allowed) :
    Outline.Segments async (outline view role) Allowed := by
  intro pool i input call hpool hallowed hcall
  have hlocal := hpool.each call (List.mem_of_getElem? hcall)
  have hinv : (view pool.shared).Inv := hpool.inv
  have hstep := h.steps pool i input call hinv hlocal hallowed hcall
  have halone := h.alone pool.shared call input
  have hspares (other : κ) (hother : other ∈ pool.calls.eraseIdx i) :=
    hinv.spared hlocal (hpool.pair_of_others hcall hother).2.1 (List.mem_map_of_mem hother)
      (hpool.pair_of_others hcall hother).2.2 hstep
  have hkept := hinv.step hlocal hstep
  have hown := hinv.own hlocal hstep
  generalize async.segment pool.shared call input = result at hstep halone hspares hkept hown ⊢
  obtain ⟨shared, rest | ⟨rest, started⟩ | outcome⟩ := result
  · exact ⟨⟨hkept, hown⟩, fun other hother => hspares other hother⟩
  · exact absurd rfl (halone rest started)
  · exact ⟨hkept, fun other hother => (hspares other hother).1⟩

theorem custody_segments (h : Keeps async view role Allowed) :
    Custody.Segments async (outline view role) (custody view role) Allowed := by
  intro pool i input call hpool hallowed hcall item hpresent
  have hlocal := hpool.each call (List.mem_of_getElem? hcall)
  have hinv : (view pool.shared).Inv := hpool.inv
  have hstep := h.steps pool i input call hinv hlocal hallowed hcall
  have halone := h.alone pool.shared call input
  have hpasses := hinv.passes hlocal hstep item hpresent
  generalize async.segment pool.shared call input = result at hstep halone hpasses ⊢
  refine hpasses.imp id (Or.imp (fun howes => ?_) id)
  obtain ⟨shared, rest | ⟨rest, started⟩ | outcome⟩ := result
  · exact ⟨rest, List.mem_singleton_self rest, howes⟩
  · exact absurd rfl (halone rest started)
  · exact howes.elim

omit [DecidableEq ν] in
theorem holds_of_empty (hstart : (view pool.shared).rows = [])
    (hrecords : ∀ name, (view pool.shared).records name = []) (hcalls : pool.calls = []) :
    (outline view role).Holds pool := by
  refine ⟨?_, by simp [hcalls], by rw [hcalls]; exact .nil⟩
  refine ⟨?_, ?_, ?_, fun name _ => hrecords name, ?_⟩ <;> rw [hstart]
  · exact .nil
  · exact fun row hrow => nomatch hrow
  · exact .nil
  · exact fun row hrow => nomatch hrow

/-- In a run of such calls the invariant holds before each move. -/
theorem guard (h : Keeps async view role Allowed) (hholds : (outline view role).Holds pool)
    (hrun : Run (async.Step Allowed) pool moves pool') :
    Run (async.Step fun pool m => (view pool.shared).Inv ∧ Allowed pool m) pool moves pool' := by
  have hguarded := hrun.guard (fun _ _ _ hstep hpool =>
    hpool.of_step h.outline_begins h.outline_segments hstep) hholds
  exact hguarded.mono fun _ _ _ _ hstep => ⟨⟨hstep.1.inv, hstep.2.1⟩, hstep.2.2⟩

/-- **Complete lists.** When no call is in flight, each row has all its changes recorded, in their
order, and a name without a row has none. -/
theorem complete (h : Keeps async view role Allowed) (hstart : (view pool.shared).rows = [])
    (hrecords : ∀ name, (view pool.shared).records name = []) (hcalls : pool.calls = [])
    (hrun : Run (async.Step Allowed) pool moves pool') (hdone : pool'.calls = []) :
    (view pool'.shared).Inv ∧
      ∀ row ∈ (view pool'.shared).rows, (view pool'.shared).records row.name = row.changes := by
  have hholds : (outline view role).Holds pool := holds_of_empty hstart hrecords hcalls
  have hcovers : (custody view role).Covers pool := by
    rintro item ⟨row, hrow, -⟩
    rw [hstart] at hrow
    cases hrow
  obtain ⟨hholds', hcovers'⟩ := Custody.Covers.of_run h.outline_begins h.outline_segments
    h.custody_segments hrun hholds hcovers
  have hinv' : (view pool'.shared).Inv := hholds'.inv
  refine ⟨hinv', fun row hrow => (hinv'.kept row hrow).eq_of_length_le ?_⟩
  by_contra hshort
  -- The first change that is missing is owed by a call, and there is none.
  have hpresent : Present (view pool'.shared) ⟨row.id, ((view pool'.shared).records row.name).length⟩ :=
    ⟨row, hrow, rfl, Nat.lt_of_not_le hshort⟩
  rcases hcovers' _ hpresent with hsettled | ⟨call, hcall, -⟩
  · exact absurd (hsettled row hrow rfl) (Nat.lt_irrefl _)
  · rw [hdone] at hcall
    cases hcall

end Keeps

end Ledger

end Kinglet.Library
