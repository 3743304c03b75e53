import Kinglet.Memorystore.AclPolicies
import Mathlib.Data.List.Nodup

/-!
# The history of ACL policies

The policies and their revisions are a ledger: the rules a policy has had are its changes, and its
revisions their records. The calls keep the ledger as long as a snapshot is inserted when those before
it have been, and nothing comes between the two halves of a delete. The etag a delete has compared
stays that of the policy as long as no rules are written before the removal.
-/

namespace Kinglet.Memorystore

open Js Library Storage

/-! ## What the history of a policy is -/

/-- The revisions of a policy: revision `k` has the rules after the change of that number, and each
is found by its name. -/
structure History (store : AclStore) (policy : AclPolicyRecord) : Prop where
  numbers : (store.revisionsOf policy.name).map (·.revisionNumber) =
    (List.range' 1 policy.changes.length).map decimal
  rules : (store.revisionsOf policy.name).map (·.snapshot.rules) = policy.changes
  current : policy.changes.getLast? = some policy.rules
  found : ∀ revision ∈ store.revisionsOf policy.name,
    store.getRevisionByName revision.name = some revision

/-- No rules of the policy of a name are replaced after its etag was read. -/
def Unchanged (events : List AclEvent) (name : JsString) (etag : ℕ) : Prop :=
  events.Pairwise fun earlier later => ¬(earlier = .read name etag ∧ later = .rulesUpdated name)

/-- Before a delete that presented an etag, the rules were not replaced since the etag was read. -/
def EtagsGuarded (events : List AclEvent) : Prop :=
  ∀ earlier name etag, earlier ++ [.deleted name (some etag)] <+: events →
    Unchanged earlier name etag

structure PoliciesKept (store : AclStore) : Prop where
  histories : ∀ name, match store.getAclPolicyByName name with
    | none => store.revisionsOf name = []
    | some policy => History store policy
  guarded : EtagsGuarded store.events

/-! ## Orderly calls -/

/-- A call that is to insert the snapshot of a policy, or to delete the policy. -/
def AclCall.records (id : ℕ) : AclCall → Bool
  | .countRevisions policy _ _ _ | .createRevision policy _ _ _ _ => policy.id = id
  | _ => false

def AclCall.removes (id : ℕ) : AclCall → Bool
  | .deleteById _ id' _ => id' = id
  | _ => false

/-- What a delete that has compared its etag has yet to remove. -/
def AclCall.presented : AclCall → Option (JsString × ℕ)
  | .findForDelete name etag | .deleteRevisions name _ etag | .deleteById name _ etag =>
      etag.map fun etag => (name, etag)
  | _ => none

def AclCall.presents (name : JsString) (call : AclCall) : Bool :=
  call.presented.any fun presented => presented.1 = name

/-- When the next step of a call beside others is in order. -/
def Orderly (provider : Provider) (store : AclStore) (others : List AclCall) : AclCall → Bool
  | .insertPolicy name _ _ =>
      match store.getAclPolicyByName name with
      | some _ => provider = .sqlite
      | none => (parseAclPolicyName name).isSome
  | .createRevision policy _ _ revisionNumber _ =>
      policy.changes.length = store.countRevisionsForPolicy policy.name + 1 &&
        revisionNumber = decimal (store.countRevisionsForPolicy policy.name + 1)
  | .updateById _ id (some _) =>
      match store.findById id with
      | none => true
      | some existing => (parseAclPolicyName existing.name).isSome &&
          !others.any (AclCall.removes id) && !others.any (AclCall.presents existing.name)
  | .deleteRevisions name id _ =>
      match store.findById id with
      | none => store.revisionsOf name = []
      | some _ => !others.any (AclCall.records id)
  | _ => true

def KeepsPolicies (provider : Provider) (pool : Pool AclStore AclCall AclOutcome) :
    Move AclRequest Unit → Prop
  | .start _ => True
  | .resume index _ => ∀ call ∈ pool.calls[index]?,
      Orderly provider pool.shared (pool.calls.eraseIdx index) call = true

/-! ## Names of revisions -/

def revisionName (policyName revisionNumber : JsString) : JsString :=
  policyName ++ js "/revisions/" ++ revisionNumber

theorem buildAclPolicyName_of_path {name : JsString} {path : AclPolicyPath}
    (h : parseAclPolicyName name = some path) :
    buildAclPolicyName path.project path.location path.aclPolicy = name := by
  have hjoin : join [unit '/'] (splitUnit (unit '/') name) = name :=
    List.intercalate_splitOn (unit '/')
  unfold parseAclPolicyName at h
  split at h
  · next projects project locations location aclPolicies aclPolicy hsplit =>
      split at h
      · next hparts =>
          obtain ⟨rfl, -, rfl, -, rfl, -⟩ := hparts
          obtain rfl := Option.some.inj h
          rw [hsplit] at hjoin
          rw [← hjoin]
          simp [buildAclPolicyName, join, js, utf16, unit]
      · cases h
  · cases h

theorem revisionRecord_name {policy : AclPolicyRecord} {path : AclPolicyPath}
    (h : parseAclPolicyName policy.name = some path) (revisionNumber : JsString) :
    (revisionRecord policy path revisionNumber).name = revisionName policy.name revisionNumber := by
  rw [← buildAclPolicyName_of_path h]
  rfl

theorem slash_notMem_decimal (n : ℕ) : unit '/' ∉ decimal n := fun hmem =>
  absurd (isDigit_of_mem_decimal hmem) (by decide)

theorem revisionName_injective {name other : JsString} {n m : ℕ}
    (h : revisionName name (decimal n) = revisionName other (decimal m)) : name = other ∧ n = m := by
  have hcut (name : JsString) (n : ℕ) :
      cutLast (unit '/') (revisionName name (decimal n)) =
        some (name ++ js "/revisions", decimal n) := by
    have hsplit : revisionName name (decimal n) =
        name ++ js "/revisions" ++ unit '/' :: decimal n := by
      simp [revisionName, js, utf16, unit]
    rw [hsplit, cutLast_append (slash_notMem_decimal n)]
  have hsame := hcut name n
  rw [h, hcut other m] at hsame
  obtain ⟨hnames, hnumbers⟩ := Prod.mk.inj (Option.some.inj hsame)
  exact ⟨(List.append_cancel_right hnames).symm, (decimal_injective hnumbers).symm⟩

/-! ## Numbers of revisions -/

/-- The revisions of each name are numbered from one, and named by their numbers. -/
structure Numbered (store : AclStore) : Prop where
  numbers : ∀ name, (store.revisionsOf name).map (·.revisionNumber) =
    (List.range' 1 (store.countRevisionsForPolicy name)).map decimal
  names : ∀ revision ∈ store.revisions,
    revision.name = revisionName revision.policyName revision.revisionNumber

namespace Numbered

variable {provider : Provider} {store : AclStore} {others : List AclCall}

theorem exists_number (h : Numbered store) {revision : AclPolicyRevisionRecord}
    (hrevision : revision ∈ store.revisions) :
    ∃ n, n < store.countRevisionsForPolicy revision.policyName + 1 ∧
      revision.revisionNumber = decimal n := by
  have hmem : revision.revisionNumber ∈
      (store.revisionsOf revision.policyName).map (·.revisionNumber) :=
    List.mem_map_of_mem (List.mem_filter.2 ⟨hrevision, by simp⟩)
  rw [h.numbers] at hmem
  obtain ⟨n, hn, heq⟩ := List.mem_map.1 hmem
  have hrange := List.mem_range'_1.1 hn
  exact ⟨n, by omega, heq.symm⟩

/-- The next name is not taken. -/
theorem getRevisionByName_next (h : Numbered store) (name : JsString) :
    store.getRevisionByName (revisionName name (decimal (store.countRevisionsForPolicy name + 1))) =
      none := by
  rw [AclStore.getRevisionByName, List.find?_eq_none]
  intro revision hrevision
  obtain ⟨n, hlt, hnumber⟩ := h.exists_number hrevision
  rw [h.names revision hrevision, hnumber, decide_eq_true_eq]
  intro hsame
  obtain ⟨rfl, rfl⟩ := revisionName_injective hsame
  exact Nat.lt_irrefl _ hlt

/-- A revision is found by its name. -/
theorem getRevisionByName_self (h : Numbered store) {revision : AclPolicyRevisionRecord}
    (hrevision : revision ∈ store.revisions) :
    store.getRevisionByName revision.name = some revision := by
  cases hfound : store.getRevisionByName revision.name with
  | none => exact absurd (List.find?_eq_none.1 hfound revision hrevision) (by simp)
  | some other =>
    have hother := List.mem_of_find?_eq_some hfound
    have hname : other.name = revision.name := by simpa using List.find?_some hfound
    obtain ⟨n, -, hn⟩ := h.exists_number hrevision
    obtain ⟨m, -, hm⟩ := h.exists_number hother
    rw [h.names other hother, h.names revision hrevision, hn, hm] at hname
    obtain ⟨hpolicy, rfl⟩ := revisionName_injective hname
    have hnodup : ((store.revisionsOf revision.policyName).map (·.revisionNumber)).Nodup := by
      rw [h.numbers]
      exact List.Nodup.map decimal_injective List.nodup_range'
    rw [List.inj_on_of_nodup_map hnodup (List.mem_filter.2 ⟨hother, by simpa using hpolicy⟩)
      (List.mem_filter.2 ⟨hrevision, by simp⟩) (hm.trans hn.symm)]

theorem createRevision (h : Numbered store) {policy : AclPolicyRecord} {path : AclPolicyPath}
    (hpath : parseAclPolicyName policy.name = some path) :
    Numbered (store.createRevision (revisionRecord policy path
      (decimal (store.countRevisionsForPolicy policy.name + 1)))) := by
  refine ⟨fun name => ?_, fun revision hrevision => ?_⟩
  · have hrevisions : (store.createRevision (revisionRecord policy path
        (decimal (store.countRevisionsForPolicy policy.name + 1)))).revisionsOf name =
          store.revisionsOf name ++ if policy.name = name then [revisionRecord policy path
            (decimal (store.countRevisionsForPolicy policy.name + 1))] else [] := by
      change (store.revisions ++ [_]).filter _ = _
      rw [List.filter_append, List.filter_singleton, Bool.cond_decide]
      rfl
    change (AclStore.revisionsOf _ name).map _ =
      (List.range' 1 (AclStore.revisionsOf _ name).length).map _
    rw [hrevisions, List.map_append, h.numbers]
    split
    · next heq =>
        subst heq
        rw [List.length_append, List.length_singleton, List.range'_concat, List.map_append]
        simp [revisionRecord, AclStore.countRevisionsForPolicy, Nat.add_comm]
    · rw [List.append_nil]
      simp [AclStore.countRevisionsForPolicy]
  · rcases List.mem_append.1 hrevision with hrevision | hrevision
    · exact h.names revision hrevision
    · obtain rfl := List.mem_singleton.1 hrevision
      exact revisionRecord_name hpath _

theorem deleteRevisions (h : Numbered store) (name : JsString) :
    Numbered (store.deleteRevisionsForPolicy name) := by
  refine ⟨fun other => ?_, fun revision hrevision => h.names revision (List.mem_filter.1 hrevision).1⟩
  rcases eq_or_ne other name with rfl | hne
  · have hnone : (store.deleteRevisionsForPolicy other).revisionsOf other = [] := by
      rw [AclStore.revisionsOf, AclStore.deleteRevisionsForPolicy, List.filter_filter,
        List.filter_eq_nil_iff]
      simp
    rw [AclStore.countRevisionsForPolicy, hnone]
    rfl
  · have hsame : (store.deleteRevisionsForPolicy name).revisionsOf other =
        store.revisionsOf other := by
      rw [AclStore.revisionsOf, AclStore.deleteRevisionsForPolicy, List.filter_filter]
      refine List.filter_congr fun revision _ => ?_
      by_cases heq : revision.policyName = other <;> simp [heq, hne]
    rw [AclStore.countRevisionsForPolicy, hsame]
    exact h.numbers other

theorem segment (h : Numbered store) {call : AclCall}
    (horderly : Orderly provider store others call = true) :
    Numbered (aclSegment provider store call).1 := by
  have hsame {store' : AclStore} (hrevisions : store'.revisions = store.revisions) :
      Numbered store' := by
    refine ⟨fun name => ?_, fun revision hrevision => h.names revision (hrevisions ▸ hrevision)⟩
    simpa only [AclStore.countRevisionsForPolicy, AclStore.revisionsOf, hrevisions] using
      h.numbers name
  cases call with
  | createRevision policy path hpath revisionNumber after =>
    simp only [Orderly, Bool.and_eq_true, decide_eq_true_eq] at horderly
    obtain ⟨-, rfl⟩ := horderly
    dsimp only [aclSegment]
    split
    · exact h
    · exact h.createRevision hpath
  | deleteRevisions name id etag => exact h.deleteRevisions name
  | request request =>
    refine hsame ?_
    cases request
    all_goals
      dsimp only [aclSegment]
      repeat' split
      all_goals rfl
  | checkName | insertPolicy | countRevisions | findForUpdate | updateById | findForDelete |
      deleteById | createOperation =>
      refine hsame ?_
      dsimp only [aclSegment]
      repeat' split
      all_goals rfl

end Numbered

/-! ## The ledger -/

def ledgerRow (policy : AclPolicyRecord) : LedgerRow JsString JsString :=
  ⟨policy.id, policy.name, policy.changes⟩

/-- What a revision keeps of which policy. -/
def ledgerEntry (revision : AclPolicyRevisionRecord) : JsString × JsString :=
  (revision.policyName, revision.snapshot.rules)

def AclStore.ledger (store : AclStore) : Ledger JsString JsString :=
  .ofEntries (store.policies.map ledgerRow) (store.revisions.map ledgerEntry) store.nextId

def AclCall.role : AclCall → LedgerRole JsString JsString
  | .countRevisions policy _ _ _ | .createRevision policy _ _ _ _ =>
      .recording policy.id policy.name (policy.changes.length - 1) policy.rules
  | .updateById name id (some _) | .deleteRevisions name id _ => .found id name
  | .deleteById _ id _ => .clearing id
  | _ => .idle

section ledger

variable {store : AclStore} {policy : AclPolicyRecord} {name : JsString} {id : ℕ}

theorem mem_of_getAclPolicyByName (h : store.getAclPolicyByName name = some policy) :
    policy ∈ store.policies ∧ policy.name = name :=
  ⟨List.mem_of_find?_eq_some h, by simpa using List.find?_some h⟩

theorem mem_of_findById (h : store.findById id = some policy) :
    policy ∈ store.policies ∧ policy.id = id :=
  ⟨List.mem_of_find?_eq_some h, by simpa using List.find?_some h⟩

theorem free_of_getAclPolicyByName (h : store.getAclPolicyByName name = none) :
    ∀ policy ∈ store.policies, policy.name ≠ name := by
  intro policy hpolicy
  simpa using List.find?_eq_none.1 h policy hpolicy

theorem absent_of_findById (h : store.findById id = none) :
    ∀ policy ∈ store.policies, policy.id ≠ id := by
  intro policy hpolicy
  simpa using List.find?_eq_none.1 h policy hpolicy

theorem eq_of_id (h : store.ledger.Inv) {other : AclPolicyRecord} (hpolicy : policy ∈ store.policies)
    (hother : other ∈ store.policies) (hid : policy.id = other.id) : policy = other := by
  have hrows : (store.policies.map ledgerRow).Pairwise fun row other => row.id ≠ other.id := h.ids
  have hpairs : store.policies.Pairwise fun a b => a.id ≠ b.id := by rwa [List.pairwise_map] at hrows
  by_contra hne
  have : Std.Symm fun a b : AclPolicyRecord => a.id ≠ b.id := ⟨fun _ _ h => h.symm⟩
  exact hpairs.forall hpolicy hother hne hid

theorem length_records (name : JsString) :
    (store.ledger.records name).length = store.countRevisionsForPolicy name := by
  change (((store.revisions.map ledgerEntry).filter _).map _).length =
    (store.revisions.filter _).length
  rw [List.length_map, List.filter_map, List.length_map]
  rfl

theorem records_eq (name : JsString) :
    store.ledger.records name = (store.revisionsOf name).map (·.snapshot.rules) := by
  change ((store.revisions.map ledgerEntry).filter _).map _ = _
  rw [List.filter_map, List.map_map]
  rfl

theorem ledger_insertPolicy (name rules : JsString) (etag : ℕ) :
    (store.insertPolicy (store.newPolicy name rules etag)).ledger =
      store.ledger.insert name rules := by
  simp [AclStore.ledger, AclStore.insertPolicy, Ledger.insert, Ledger.ofEntries, ledgerRow,
    AclStore.newPolicy]

theorem ledger_createRevision (path : AclPolicyPath) (revisionNumber : JsString) :
    (store.createRevision (revisionRecord policy path revisionNumber)).ledger =
      store.ledger.record policy.name policy.rules := by
  rw [AclStore.ledger, AclStore.createRevision, List.map_append]
  exact Ledger.ofEntries_append _ _

theorem ledger_deleteRevisions :
    (store.deleteRevisionsForPolicy name).ledger = store.ledger.clear name := by
  rw [AclStore.ledger, AclStore.deleteRevisionsForPolicy]
  refine Eq.trans ?_ (Ledger.ofEntries_filter name)
  rw [List.filter_map]
  rfl

theorem ledger_deleteById : (store.deleteById id).ledger = store.ledger.remove id := by
  simp only [AclStore.ledger, AclStore.deleteById, Ledger.remove, Ledger.ofEntries, List.filter_map]
  rfl

theorem ledger_replacePolicy (h : store.ledger.Inv) (hpolicy : store.findById id = some policy)
    (update : RulesUpdate) :
    (store.replacePolicy (update.apply policy)).ledger = store.ledger.change id update.rules := by
  have hrows : (store.replacePolicy (update.apply policy)).policies.map ledgerRow =
      (store.policies.map ledgerRow).map (Ledger.changeRow id update.rules) := by
    rw [AclStore.replacePolicy, List.map_map, List.map_map]
    refine List.map_congr_left fun other hother => ?_
    obtain ⟨hmem, rfl⟩ := mem_of_findById hpolicy
    change ledgerRow (if other.id = policy.id then update.apply policy else other) =
      if other.id = policy.id then _ else _
    by_cases hid : other.id = policy.id
    · obtain rfl := eq_of_id h hother hmem hid
      rw [if_pos rfl, if_pos rfl]
      rfl
    · rw [if_neg hid, if_neg hid]
  exact congrArg (fun rows => (⟨rows, store.ledger.records, store.nextId⟩ : Ledger _ _)) hrows

@[simp] theorem ledger_log (event : AclEvent) : (store.log event).ledger = store.ledger := rfl

@[simp] theorem ledger_drawEtag : store.drawEtag.ledger = store.ledger := rfl

@[simp] theorem roleAfter_startOperation (name verb : JsString) :
    Ledger.roleAfter AclCall.role (startOperation name verb) = .idle := by
  unfold startOperation
  split <;> rfl

theorem roleAfter_startSnapshot (hname : (parseAclPolicyName policy.name).isSome)
    (after : AfterSnapshot) :
    Ledger.roleAfter AclCall.role (startSnapshot policy after) =
      .recording policy.id policy.name (policy.changes.length - 1) policy.rules := by
  unfold startSnapshot
  split
  · next hnone =>
      rw [hnone] at hname
      cases hname
  · rfl

end ledger

/-! ## The calls keep the ledger -/

section keeps

variable {provider : Provider} {store : AclStore} {others : List AclCall}

theorem role_recording {call : AclCall} {id index : ℕ} {name rules : JsString}
    (h : call.role = .recording id name index rules) : call.records id = true := by
  cases call
  case updateById name id update => cases update <;> simp_all [AclCall.role]
  all_goals simp_all [AclCall.role, AclCall.records]

theorem role_clearing {call : AclCall} {id : ℕ} (h : call.role = .clearing id) :
    call.removes id = true := by
  cases call
  case updateById name id update => cases update <;> simp_all [AclCall.role]
  all_goals simp_all [AclCall.role, AclCall.removes]

/-- An orderly segment is a step of the ledger. -/
theorem step_of_orderly {call : AclCall} (hnumbered : Numbered store) (hinv : store.ledger.Inv)
    (hlocal : Ledger.Local store.ledger call.role)
    (horderly : Orderly provider store others call = true) :
    Ledger.Step store.ledger (others.map AclCall.role) call.role
      (aclSegment provider store call).1.ledger
      (Ledger.roleAfter AclCall.role (aclSegment provider store call).2) := by
  cases call with
  | request request =>
    cases request
    all_goals
      dsimp only [aclSegment]
      repeat' split
      all_goals exact .stay _
  | checkName name rules etag =>
    dsimp only [aclSegment]
    split <;> exact .stay _
  | insertPolicy name rules etag =>
    dsimp only [aclSegment]
    split
    · exact .stay _
    · next hfree =>
        cases hfound : store.getAclPolicyByName name with
        | some policy =>
          simp only [Orderly, hfound, decide_eq_true_eq] at horderly
          exact absurd ⟨horderly, by rw [hfound]; rfl⟩ hfree
        | none =>
          simp only [Orderly, hfound] at horderly
          rw [ledger_insertPolicy, roleAfter_startSnapshot horderly]
          refine .insert rules fun row hrow => ?_
          obtain ⟨policy, hpolicy, rfl⟩ := List.mem_map.1 hrow
          exact free_of_getAclPolicyByName hfound policy hpolicy
  | countRevisions policy path hpath after => exact .stay _
  | createRevision policy path hpath revisionNumber after =>
    simp only [Orderly, Bool.and_eq_true, decide_eq_true_eq] at horderly
    obtain ⟨hlength, rfl⟩ := horderly
    obtain ⟨row, hrow, hid, hname, -⟩ := hlocal
    have hfree := hnumbered.getRevisionByName_next policy.name
    rw [← revisionRecord_name hpath] at hfree
    have hcount : policy.changes.length - 1 = (store.ledger.records row.name).length := by
      rw [hname, length_records, hlength, Nat.add_sub_cancel]
    have hstep : Ledger.Step store.ledger (others.map AclCall.role) _ _ _ :=
      .record policy.rules hrow hcount
    rw [hid, hname] at hstep
    dsimp only [aclSegment]
    rw [if_neg (by simp [hfree]), ledger_createRevision]
    cases after with
    | created => exact hstep
    | updated =>
      rw [roleAfter_startOperation]
      exact hstep
  | findForUpdate name update =>
    dsimp only [aclSegment]
    split
    · rw [roleAfter_startOperation]
      exact .stay _
    · next existing hexisting =>
        obtain ⟨hmem, rfl⟩ := mem_of_getAclPolicyByName hexisting
        cases update with
        | none => exact .stay _
        | some update =>
          have hrow : ledgerRow existing ∈ store.ledger.rows := List.mem_map_of_mem hmem
          exact .find hrow
  | updateById name id update =>
    cases update with
    | none =>
      dsimp only [aclSegment]
      split <;> rw [roleAfter_startOperation] <;> exact .stay _
    | some update =>
      dsimp only [aclSegment]
      split
      · rw [roleAfter_startOperation]
        exact .forget id name
      · next existing hexisting =>
          obtain ⟨hmem, rfl⟩ := mem_of_findById hexisting
          simp only [Orderly, hexisting, Bool.and_eq_true, Bool.not_eq_true'] at horderly
          obtain ⟨⟨hname, hremoves⟩, -⟩ := horderly
          have hupdated : (parseAclPolicyName (update.apply existing).name).isSome = true := hname
          have hrow : ledgerRow existing ∈ store.ledger.rows := List.mem_map_of_mem hmem
          have hopen : .clearing existing.id ∉ others.map AclCall.role := by
            intro hclearing
            obtain ⟨other, hother, hrole⟩ := List.mem_map.1 hclearing
            exact List.any_eq_false.1 hremoves other hother (role_clearing hrole)
          have hstep : Ledger.Step store.ledger (others.map AclCall.role)
              (.found existing.id name) _ _ := .change update.rules hrow hopen
          rw [ledger_log, ledger_replacePolicy hinv hexisting, roleAfter_startSnapshot hupdated]
          simpa [RulesUpdate.apply, ledgerRow, AclCall.role] using hstep
  | findForDelete name etag =>
    dsimp only [aclSegment]
    split
    · rw [roleAfter_startOperation]
      exact .stay _
    · next existing hexisting =>
        obtain ⟨hmem, rfl⟩ := mem_of_getAclPolicyByName hexisting
        have hrow : ledgerRow existing ∈ store.ledger.rows := List.mem_map_of_mem hmem
        exact .find hrow
  | deleteRevisions name id etag =>
    dsimp only [aclSegment]
    rw [ledger_deleteRevisions]
    refine .clear (fun row hrow hid index rules hrecording => ?_) fun hgone => ?_
    · obtain ⟨other, hother, hrole⟩ := List.mem_map.1 hrecording
      obtain ⟨policy, hpolicy, rfl⟩ := List.mem_map.1 hrow
      cases hfound : store.findById id with
      | none => exact absent_of_findById hfound policy hpolicy hid
      | some existing =>
        simp only [Orderly, hfound, Bool.not_eq_true'] at horderly
        exact List.any_eq_false.1 horderly other hother (role_recording hrole)
    · cases hfound : store.findById id with
      | some existing =>
        obtain ⟨hmem, hid⟩ := mem_of_findById hfound
        exact absurd hid (hgone _ (List.mem_map_of_mem hmem))
      | none =>
        simp only [Orderly, hfound, decide_eq_true_eq] at horderly
        rw [records_eq, horderly]
        rfl
  | deleteById name id etag =>
    dsimp only [aclSegment]
    rw [ledger_log, ledger_deleteById, roleAfter_startOperation]
    exact .remove id
  | createOperation name verb => exact .stay _

theorem not_forked (provider : Provider) (store : AclStore) (call rest : AclCall)
    (started : List AclCall) : (aclSegment provider store call).2 ≠ .forked rest started := by
  have hoperation (name verb : JsString) : startOperation name verb ≠ .forked rest started := by
    unfold startOperation
    split <;> exact nofun
  have hsnapshot (policy : AclPolicyRecord) (after : AfterSnapshot) :
      startSnapshot policy after ≠ .forked rest started := by
    unfold startSnapshot
    split <;> exact nofun
  intro hforked
  cases call
  case request request =>
    cases request
    all_goals
      dsimp only [aclSegment] at hforked
      repeat' split at hforked
      all_goals cases hforked
  all_goals
    dsimp only [aclSegment] at hforked
    repeat' split at hforked
    all_goals first
      | exact hoperation _ _ hforked
      | exact hsnapshot _ _ hforked
      | cases hforked

end keeps

/-! ## Etags -/

/-- The etag that a call has drawn and not yet written. -/
def AclCall.drawn : AclCall → Option ℕ
  | .checkName _ _ etag | .insertPolicy _ _ etag => some etag
  | .findForUpdate _ update | .updateById _ _ update => update.map RulesUpdate.etag
  | _ => none

/-- An etag that no policy has had yet. -/
structure Fresh (store : AclStore) (etag : ℕ) : Prop where
  issued : etag < store.nextEtag
  unused : ∀ policy ∈ store.policies, policy.etag ≠ etag
  unread : ∀ name, .read name etag ∉ store.events

structure EtagsKept (store : AclStore) : Prop where
  issued : ∀ policy ∈ store.policies, policy.etag < store.nextEtag
  readIssued : ∀ name etag, .read name etag ∈ store.events → etag < store.nextEtag
  unchanged : ∀ policy ∈ store.policies, Unchanged store.events policy.name policy.etag
  guarded : EtagsGuarded store.events

section etags

variable {store : AclStore} {events : List AclEvent} {name other : JsString} {etag drawn id : ℕ}
  {policy : AclPolicyRecord}

theorem Unchanged.concat (h : Unchanged events name etag) {event : AclEvent}
    (hevent : event = .rulesUpdated name → .read name etag ∉ events) :
    Unchanged (events ++ [event]) name etag := by
  refine List.pairwise_append.2 ⟨h, List.pairwise_singleton _ _, ?_⟩
  rintro earlier hearlier later hlater ⟨rfl, rfl⟩
  exact hevent (List.mem_singleton.1 hlater).symm hearlier

theorem unchanged_of_unread (h : .read name etag ∉ events) : Unchanged events name etag :=
  List.Pairwise.imp_of_mem (fun hmem _ _ hsame => h (hsame.1 ▸ hmem))
    (List.pairwise_of_forall fun _ _ => trivial : events.Pairwise fun _ _ => True)

theorem EtagsGuarded.concat (h : EtagsGuarded events) {event : AclEvent}
    (hevent : ∀ name etag, event = .deleted name (some etag) → Unchanged events name etag) :
    EtagsGuarded (events ++ [event]) := by
  intro earlier name etag hearlier
  rcases List.prefix_concat_iff.1 hearlier with heq | hearlier
  · obtain ⟨rfl, hlast⟩ := List.append_inj' heq rfl
    exact hevent name etag (List.singleton_inj.1 hlast).symm
  · exact h earlier name etag hearlier

namespace Fresh

theorem drawEtag (h : Fresh store etag) : Fresh store.drawEtag etag :=
  ⟨Nat.lt_succ_of_lt h.issued, h.unused, h.unread⟩

theorem log (h : Fresh store etag) {event : AclEvent} (hevent : ∀ name, event ≠ .read name etag) :
    Fresh (store.log event) etag := by
  refine ⟨h.issued, h.unused, fun name hmem => ?_⟩
  rcases List.mem_append.1 hmem with hmem | hmem
  · exact h.unread name hmem
  · exact hevent name (List.mem_singleton.1 hmem).symm

theorem insertPolicy (h : Fresh store etag) (hne : drawn ≠ etag) (rules : JsString) :
    Fresh (store.insertPolicy (store.newPolicy name rules drawn)) etag := by
  refine ⟨h.issued, fun policy hpolicy => ?_, h.unread⟩
  rcases List.mem_append.1 hpolicy with hpolicy | hpolicy
  · exact h.unused policy hpolicy
  · obtain rfl := List.mem_singleton.1 hpolicy
    exact hne

theorem replacePolicy (h : Fresh store etag) {update : RulesUpdate} (hne : update.etag ≠ etag) :
    Fresh (store.replacePolicy (update.apply policy)) etag := by
  refine ⟨h.issued, fun changed hchanged => ?_, h.unread⟩
  obtain ⟨before, hbefore, rfl⟩ := List.mem_map.1 hchanged
  split
  · exact hne
  · exact h.unused before hbefore

theorem deleteById (h : Fresh store etag) : Fresh (store.deleteById id) etag :=
  ⟨h.issued, fun policy hpolicy => h.unused policy (List.mem_filter.1 hpolicy).1, h.unread⟩

end Fresh

namespace EtagsKept

theorem fresh_next (h : EtagsKept store) : Fresh store.drawEtag store.nextEtag :=
  ⟨Nat.lt_succ_self _, fun policy hpolicy => Nat.ne_of_lt (h.issued policy hpolicy),
    fun name hmem => Nat.lt_irrefl _ (h.readIssued name _ hmem)⟩

theorem drawEtag (h : EtagsKept store) : EtagsKept store.drawEtag :=
  ⟨fun policy hpolicy => Nat.lt_succ_of_lt (h.issued policy hpolicy),
    fun name etag hmem => Nat.lt_succ_of_lt (h.readIssued name etag hmem), h.unchanged, h.guarded⟩

theorem read (h : EtagsKept store) (hpolicy : policy ∈ store.policies) :
    EtagsKept (store.log (.read policy.name policy.etag)) := by
  refine ⟨h.issued, fun name etag hmem => ?_, fun other hother =>
    (h.unchanged other hother).concat nofun, h.guarded.concat nofun⟩
  rcases List.mem_append.1 hmem with hmem | hmem
  · exact h.readIssued name etag hmem
  · obtain ⟨-, rfl⟩ := AclEvent.read.inj (List.mem_singleton.1 hmem)
    exact h.issued policy hpolicy

theorem insertPolicy (h : EtagsKept store) (hfresh : Fresh store etag) (name rules : JsString) :
    EtagsKept (store.insertPolicy (store.newPolicy name rules etag)) := by
  refine ⟨fun policy hpolicy => ?_, h.readIssued, fun policy hpolicy => ?_, h.guarded⟩
  · rcases List.mem_append.1 hpolicy with hpolicy | hpolicy
    · exact h.issued policy hpolicy
    · obtain rfl := List.mem_singleton.1 hpolicy
      exact hfresh.issued
  · rcases List.mem_append.1 hpolicy with hpolicy | hpolicy
    · exact h.unchanged policy hpolicy
    · obtain rfl := List.mem_singleton.1 hpolicy
      exact unchanged_of_unread (hfresh.unread name)

theorem updateRules (h : EtagsKept store) (hinv : store.ledger.Inv)
    (hpolicy : policy ∈ store.policies) {update : RulesUpdate} (hfresh : Fresh store update.etag) :
    EtagsKept ((store.replacePolicy (update.apply policy)).log (.rulesUpdated policy.name)) := by
  have hread (name : JsString) (etag : ℕ) (hmem : .read name etag ∈ store.events ++
      [.rulesUpdated policy.name]) : .read name etag ∈ store.events :=
    (List.mem_append.1 hmem).resolve_right (by simp)
  refine ⟨fun changed hchanged => ?_, fun name etag hmem => h.readIssued name etag (hread _ _ hmem),
    fun changed hchanged => ?_, h.guarded.concat nofun⟩
  · obtain ⟨before, hbefore, rfl⟩ := List.mem_map.1 hchanged
    split
    · exact hfresh.issued
    · exact h.issued before hbefore
  · obtain ⟨before, hbefore, rfl⟩ := List.mem_map.1 hchanged
    split
    · exact unchanged_of_unread fun hmem => hfresh.unread _ (hread _ _ hmem)
    · next hid =>
        refine (h.unchanged before hbefore).concat fun hevent => ?_
        -- No other policy has the name.
        have hname : policy.name = before.name := AclEvent.rulesUpdated.inj hevent
        have hsame := hinv.eq_of_name (List.mem_map_of_mem hbefore) (List.mem_map_of_mem hpolicy)
          hname.symm
        exact absurd (congrArg LedgerRow.id hsame) hid

theorem remove (h : EtagsKept store) (name : JsString) (presented : Option ℕ)
    (hpresented : ∀ etag ∈ presented, Unchanged store.events name etag) :
    EtagsKept (store.log (.deleted name presented)) := by
  refine ⟨h.issued, fun name etag hmem => ?_, fun other hother =>
    (h.unchanged other hother).concat nofun, h.guarded.concat ?_⟩
  · exact h.readIssued name etag ((List.mem_append.1 hmem).resolve_right (by simp))
  · intro other etag heq
    obtain ⟨rfl, rfl⟩ := AclEvent.deleted.inj heq
    exact hpresented etag rfl

theorem deleteById (h : EtagsKept store) (id : ℕ) : EtagsKept (store.deleteById id) :=
  ⟨fun policy hpolicy => h.issued policy (List.mem_filter.1 hpolicy).1, h.readIssued,
    fun policy hpolicy => h.unchanged policy (List.mem_filter.1 hpolicy).1, h.guarded⟩

end EtagsKept

/-- What holds of the etags of a call in flight. -/
structure EtagsLocal (store : AclStore) (call : AclCall) : Prop where
  fresh : ∀ etag ∈ call.drawn, Fresh store etag
  unchanged : ∀ presented ∈ call.presented, Unchanged store.events presented.1 presented.2

/-- What a segment does to the etags: its own call's, those that others have drawn, and those they
have compared. -/
structure EtagsStep (store : AclStore) (others : List AclCall) (call : AclCall)
    (result : AclStore × Progress AclCall AclOutcome) : Prop where
  kept : EtagsKept result.1
  own : ∀ rest ∈ result.2.calls, EtagsLocal result.1 rest
  drawn : ∀ rest ∈ result.2.calls, ∀ etag ∈ rest.drawn, etag ∈ call.drawn ∨ etag = store.nextEtag
  fresh : ∀ etag ∉ call.drawn, Fresh store etag → Fresh result.1 etag
  unchanged : ∀ other ∈ others, ∀ presented ∈ other.presented,
    Unchanged store.events presented.1 presented.2 → Unchanged result.1.events presented.1 presented.2

/-- A call that has neither drawn nor compared an etag. -/
def AclCall.Bare (call : AclCall) : Prop := call.drawn = none ∧ call.presented = none

theorem AclCall.Bare.local {call : AclCall} (h : call.Bare) (store : AclStore) :
    EtagsLocal store call := ⟨by simp [h.1], by simp [h.2]⟩

theorem bare_of_startOperation {rest : AclCall} {verb : JsString}
    (h : rest ∈ (startOperation name verb).calls) : rest.Bare := by
  unfold startOperation at h
  split at h
  · cases h
  · obtain rfl := List.mem_singleton.1 h
    exact ⟨rfl, rfl⟩

theorem bare_of_startSnapshot {rest : AclCall} {after : AfterSnapshot}
    (h : rest ∈ (startSnapshot policy after).calls) : rest.Bare := by
  unfold startSnapshot at h
  split at h
  · cases h
  · obtain rfl := List.mem_singleton.1 h
    exact ⟨rfl, rfl⟩

namespace EtagsStep

variable {others : List AclCall} {call : AclCall} {progress : Progress AclCall AclOutcome}

/-- A segment that leaves the policies, the etags and the events as they are. -/
theorem of_same (h : EtagsKept store) (hlocal : EtagsLocal store call) {store' : AclStore}
    (hpolicies : store'.policies = store.policies) (hetag : store'.nextEtag = store.nextEtag)
    (hevents : store'.events = store.events)
    (hdrawn : ∀ rest ∈ progress.calls, ∀ etag ∈ rest.drawn, etag ∈ call.drawn)
    (hpresented : ∀ rest ∈ progress.calls, ∀ presented ∈ rest.presented,
      Unchanged store.events presented.1 presented.2) :
    EtagsStep store others call (store', progress) := by
  have hfresh (etag : ℕ) (hfresh : Fresh store etag) : Fresh store' etag :=
    ⟨by rw [hetag]; exact hfresh.issued, by rw [hpolicies]; exact hfresh.unused,
      by rw [hevents]; exact hfresh.unread⟩
  refine ⟨?_, fun rest hrest => ⟨fun etag hetag => ?_, fun presented hmem => ?_⟩,
    fun rest hrest etag hmem => .inl (hdrawn rest hrest etag hmem), fun etag _ => hfresh etag,
    fun other _ presented _ => ?_⟩
  · refine ⟨?_, ?_, ?_, ?_⟩ <;> simp only [hpolicies, hetag, hevents]
    exacts [h.issued, h.readIssued, h.unchanged, h.guarded]
  · exact hfresh etag (hlocal.fresh etag (hdrawn rest hrest etag hetag))
  · rw [hevents]
    exact hpresented rest hrest presented hmem
  · rw [hevents]
    exact id

/-- A segment after which its call has neither drawn nor compared an etag. -/
theorem of_bare {store' : AclStore} (hkept : EtagsKept store')
    (hbare : ∀ rest ∈ progress.calls, rest.Bare)
    (hfresh : ∀ etag ∉ call.drawn, Fresh store etag → Fresh store' etag)
    (hunchanged : ∀ other ∈ others, ∀ presented ∈ other.presented,
      Unchanged store.events presented.1 presented.2 →
        Unchanged store'.events presented.1 presented.2) :
    EtagsStep store others call (store', progress) where
  kept := hkept
  own rest hrest := (hbare rest hrest).local store'
  drawn rest hrest etag hmem := by
    rw [(hbare rest hrest).1] at hmem
    cases hmem
  fresh := hfresh
  unchanged := hunchanged

/-- A call that begins to hold an etag it draws. -/
theorem of_draw (h : EtagsKept store) {rest : AclCall} (hdrawn : rest.drawn = some store.nextEtag)
    (hpresented : rest.presented = none) :
    EtagsStep store others call (store.drawEtag, .pending rest) := by
  refine ⟨h.drawEtag, fun rest' hrest => ?_, fun rest' hrest etag hmem => ?_, fun etag _ hfresh =>
    hfresh.drawEtag, fun _ _ _ _ => id⟩
  · obtain rfl := List.mem_singleton.1 hrest
    refine ⟨fun etag hmem => ?_, by simp [hpresented]⟩
    rw [hdrawn] at hmem
    obtain rfl := Option.some.inj hmem
    exact h.fresh_next
  · obtain rfl := List.mem_singleton.1 hrest
    rw [hdrawn] at hmem
    exact .inr (Option.some.inj hmem).symm

theorem of_orderly {provider : Provider} (h : EtagsKept store) (hinv : store.ledger.Inv)
    (hlocal : EtagsLocal store call) (horderly : Orderly provider store others call = true) :
    EtagsStep store others call (aclSegment provider store call) := by
  have hdone (outcome : AclOutcome) : EtagsStep store others call (store, .finished outcome) :=
    .of_same h hlocal rfl rfl rfl nofun nofun
  have hbare (store' : AclStore) (hpolicies : store'.policies = store.policies)
      (hetag : store'.nextEtag = store.nextEtag) (hevents : store'.events = store.events)
      {progress : Progress AclCall AclOutcome} (hrest : ∀ rest ∈ progress.calls, rest.Bare) :
      EtagsStep store others call (store', progress) := by
    refine .of_same h hlocal hpolicies hetag hevents (fun rest hmem => ?_) fun rest hmem => ?_
    · simp [(hrest rest hmem).1]
    · simp [(hrest rest hmem).2]
  cases call with
  | request request =>
    cases request with
    | get name =>
      dsimp only [aclSegment]
      split
      · exact hdone _
      · next record hrecord =>
          obtain ⟨hmem, rfl⟩ := mem_of_getAclPolicyByName hrecord
          refine .of_bare (h.read hmem) nofun (fun etag _ hfresh => hfresh.log fun name heq => ?_)
            fun _ _ _ _ hunchanged => hunchanged.concat nofun
          exact hfresh.unused record hmem (AclEvent.read.inj heq).2
    | create project location aclPolicyId rules =>
      dsimp only [aclSegment]
      split
      · exact hdone _
      · split
        · exact hdone _
        · exact .of_draw h rfl rfl
    | update name rules updateMask =>
      dsimp only [aclSegment]
      split
      · exact hdone _
      · split
        · exact hdone _
        · split
          · exact .of_same h hlocal rfl rfl rfl (by simp [Progress.calls, AclCall.drawn])
              (by simp [Progress.calls, AclCall.presented])
          · exact .of_draw h rfl rfl
    | delete name etag =>
      dsimp only [aclSegment]
      split
      · exact hdone _
      · next existing hexisting =>
          split
          · exact hdone _
          · next hmatches =>
              obtain ⟨hmem, rfl⟩ := mem_of_getAclPolicyByName hexisting
              refine .of_same h hlocal rfl rfl rfl (by simp [Progress.calls, AclCall.drawn]) ?_
              intro rest hrest presented hpresented
              obtain rfl := List.mem_singleton.1 hrest
              obtain ⟨etag, rfl, rfl⟩ := Option.map_eq_some_iff.1 hpresented
              obtain rfl : etag = existing.etag := by simpa using hmatches
              exact h.unchanged existing hmem
  | checkName name rules etag =>
    dsimp only [aclSegment]
    split
    · exact hdone _
    · exact .of_same h hlocal rfl rfl rfl (by simp [Progress.calls, AclCall.drawn])
        (by simp [Progress.calls, AclCall.presented])
  | insertPolicy name rules etag =>
    dsimp only [aclSegment]
    split
    · exact hdone _
    · refine .of_bare (h.insertPolicy (hlocal.fresh etag rfl) name rules)
        (fun rest => bare_of_startSnapshot) (fun other hne hfresh => ?_) fun _ _ _ _ => id
      exact hfresh.insertPolicy (fun heq => hne (congrArg some heq)) rules
  | countRevisions policy path hpath after =>
    refine hbare store rfl rfl rfl fun rest hrest => ?_
    obtain rfl := List.mem_singleton.1 hrest
    exact ⟨rfl, rfl⟩
  | createRevision policy path hpath revisionNumber after =>
    dsimp only [aclSegment]
    split
    · exact hdone _
    · refine hbare (store.createRevision _) rfl rfl rfl ?_
      cases after with
      | created => exact nofun
      | updated => exact fun rest => bare_of_startOperation
  | findForUpdate name update =>
    dsimp only [aclSegment]
    split
    · exact hbare _ rfl rfl rfl fun rest => bare_of_startOperation
    · exact .of_same h hlocal rfl rfl rfl (by simp [Progress.calls, AclCall.drawn])
        (by simp [Progress.calls, AclCall.presented])
  | updateById name id update =>
    dsimp only [aclSegment]
    split
    · exact hbare _ rfl rfl rfl fun rest => bare_of_startOperation
    · next existing hexisting =>
        cases update with
        | none => exact hbare _ rfl rfl rfl fun rest => bare_of_startOperation
        | some update =>
          simp only [Orderly, hexisting, Bool.and_eq_true, Bool.not_eq_true'] at horderly
          obtain ⟨hmem, rfl⟩ := mem_of_findById hexisting
          refine .of_bare (h.updateRules hinv hmem (hlocal.fresh update.etag rfl))
            (fun rest => bare_of_startSnapshot) (fun other hne hfresh => ?_)
            fun other hother presented hpresented hunchanged => ?_
          · exact (hfresh.replacePolicy fun heq => hne (congrArg some heq)).log nofun
          · refine hunchanged.concat fun heq => ?_
            have hname : existing.name = presented.1 := AclEvent.rulesUpdated.inj heq
            have hpresents : other.presents existing.name = true := by
              simp [AclCall.presents, Option.mem_def.1 hpresented, hname]
            exact absurd hpresents (List.any_eq_false.1 horderly.2 other hother)
  | findForDelete name etag =>
    dsimp only [aclSegment]
    split
    · refine .of_bare (h.remove name etag fun presented hmem => ?_)
        (fun rest => bare_of_startOperation) (fun other _ hfresh => hfresh.log nofun)
        fun _ _ _ _ hunchanged => hunchanged.concat nofun
      exact hlocal.unchanged (name, presented) (Option.map_eq_some_iff.2 ⟨presented, hmem, rfl⟩)
    · refine .of_same h hlocal rfl rfl rfl (by simp [Progress.calls, AclCall.drawn]) ?_
      intro rest hrest
      obtain rfl := List.mem_singleton.1 hrest
      exact hlocal.unchanged
  | deleteRevisions name id etag =>
    refine .of_same h hlocal rfl rfl rfl (by simp [Progress.calls, AclCall.drawn]) ?_
    intro rest hrest
    obtain rfl := List.mem_singleton.1 hrest
    exact hlocal.unchanged
  | deleteById name id etag =>
    refine .of_bare ((h.deleteById id).remove name etag fun presented hmem => ?_)
      (fun rest => bare_of_startOperation) (fun other _ hfresh => hfresh.deleteById.log nofun)
      fun _ _ _ _ hunchanged => hunchanged.concat nofun
    exact hlocal.unchanged (name, presented) (Option.map_eq_some_iff.2 ⟨presented, hmem, rfl⟩)
  | createOperation name verb => exact hbare (store.createOperation name verb) rfl rfl rfl nofun

end EtagsStep

end etags

def etagsOutline : Outline AclStore AclCall AclOutcome where
  Inv store _ := EtagsKept store
  Local := EtagsLocal
  Pair call other := ∀ etag ∈ call.drawn, etag ∉ other.drawn
  symm h etag hother hcall := h etag hcall hother

theorem etags_begins (provider : Provider)
    {Allowed : Pool AclStore AclCall AclOutcome → Move AclRequest Unit → Prop} :
    Outline.Begins (aclPolicyService provider) etagsOutline Allowed := by
  intro pool request _ _
  refine ⟨⟨nofun, nofun⟩, fun other _ etag _ => nofun⟩

theorem etags_segments (provider : Provider) :
    Outline.Segments (aclPolicyService provider) etagsOutline fun pool move =>
      pool.shared.ledger.Inv ∧ KeepsPolicies provider pool move := by
  rintro pool i input call hpool ⟨hinv, hallowed⟩ hcall
  have hlocal := hpool.each call (List.mem_of_getElem? hcall)
  have hstep := EtagsStep.of_orderly hpool.inv hinv hlocal (hallowed call hcall)
  have halone := not_forked provider pool.shared call
  change Outline.Keeps etagsOutline pool.outcomes (aclSegment provider pool.shared call) ∧
    ∀ other ∈ _, Outline.Spares etagsOutline other (aclSegment provider pool.shared call)
  refine ⟨.of_calls (fun _ => hstep.kept) hstep.own ?_, fun other hother => ?_⟩
  · generalize (aclSegment provider pool.shared call).2 = progress at halone
    cases progress with
    | pending rest => exact List.pairwise_singleton _ _
    | forked rest started => exact absurd rfl (halone rest started)
    | finished outcome => exact .nil
  · obtain ⟨-, hkept, hpair⟩ := hpool.pair_of_others hcall hother
    refine .of ⟨fun etag hetag => ?_, fun presented hpresented => ?_⟩
      fun rest hrest etag hetag hdrawn => ?_
    · exact hstep.fresh etag (fun hmem => hpair etag hmem hetag) (hkept.fresh etag hetag)
    · exact hstep.unchanged other hother presented hpresented (hkept.unchanged presented hpresented)
    · rcases hstep.drawn rest hrest etag hetag with hmem | rfl
      · exact hpair etag hmem hdrawn
      · exact Nat.lt_irrefl _ (hkept.fresh _ hdrawn).issued

/-! ## Every run -/

def emptyPool : Pool AclStore AclCall AclOutcome := ⟨.start, [], []⟩

section runs

variable {provider : Provider} {moves : List (Move AclRequest Unit)}
  {pool : Pool AclStore AclCall AclOutcome}

theorem keeps (provider : Provider) : Ledger.Keeps (aclPolicyService provider) AclStore.ledger
    AclCall.role fun pool move => Numbered pool.shared ∧ KeepsPolicies provider pool move where
  begins _ := rfl
  steps _ _ _ call hinv hlocal hallowed hcall :=
    step_of_orderly hallowed.1 hinv hlocal (hallowed.2 call hcall)
  alone store call _ := not_forked provider store call

/-- The rules of each policy are those of its last change. -/
def Current (store : AclStore) : Prop :=
  ∀ policy ∈ store.policies, policy.changes.getLast? = some policy.rules

theorem Current.segment {store : AclStore} (h : Current store) (call : AclCall) :
    Current (aclSegment provider store call).1 := by
  cases call with
  | insertPolicy name rules etag =>
    dsimp only [aclSegment]
    split
    · exact h
    · intro policy hpolicy
      rcases List.mem_append.1 hpolicy with hpolicy | hpolicy
      · exact h policy hpolicy
      · obtain rfl := List.mem_singleton.1 hpolicy
        rfl
  | updateById name id update =>
    dsimp only [aclSegment]
    split
    · exact h
    · next existing hexisting =>
        cases update with
        | none => exact h
        | some update =>
          intro policy hpolicy
          obtain ⟨before, hbefore, rfl⟩ := List.mem_map.1 hpolicy
          split
          · exact List.getLast?_concat
          · exact h before hbefore
  | deleteById name id etag => exact fun policy hpolicy => h policy (List.mem_filter.1 hpolicy).1
  | request request =>
    cases request
    all_goals
      dsimp only [aclSegment]
      repeat' split
      all_goals exact h
  | checkName | countRevisions | createRevision | findForUpdate | findForDelete | deleteRevisions |
      createOperation =>
      dsimp only [aclSegment]
      repeat' split
      all_goals exact h

theorem current_of_run (h : Run ((aclPolicyService provider).Step (KeepsPolicies provider)) emptyPool
    moves pool) : Current pool.shared := by
  have hsegment := fun pool index (_ : Unit) call (_ : KeepsPolicies provider pool (.resume index ()))
    (_ : pool.calls[index]? = some call) (hcurrent : Current pool.shared) =>
      (hcurrent.segment call : Current (aclSegment provider pool.shared call).1)
  exact @Run.invariant _ _ _ _ _ _ (fun pool => Current pool.shared) (fun _ => True)
    (fun _ _ _ _ => Async.shared_of_step _ hsegment) h (fun _ _ => trivial) nofun

theorem numbered_of_run (h : Run ((aclPolicyService provider).Step (KeepsPolicies provider)) emptyPool
    moves pool) : Numbered pool.shared ∧
      Run ((aclPolicyService provider).Step fun pool move =>
        Numbered pool.shared ∧ KeepsPolicies provider pool move) emptyPool moves pool := by
  have hsegment := fun pool index (_ : Unit) call (hallowed : KeepsPolicies provider pool
    (.resume index ())) (hcall : pool.calls[index]? = some call) (hnumbered : Numbered pool.shared) =>
      hnumbered.segment (hallowed call hcall)
  have hstep : ∀ before move after, (aclPolicyService provider).Step (KeepsPolicies provider) before move
      after → Numbered before.shared → Numbered after.shared :=
    fun _ _ _ => Async.shared_of_step (aclPolicyService provider) hsegment
  have hempty : Numbered emptyPool.shared := ⟨fun _ => rfl, nofun⟩
  refine ⟨?_, (h.guard hstep hempty).mono fun _ _ _ _ hstep => ⟨⟨hstep.1, hstep.2.1⟩, hstep.2.2⟩⟩
  exact @Run.invariant _ _ _ _ _ _ (fun pool => Numbered pool.shared) (fun _ => True)
    (fun before move after _ => hstep before move after) h (fun _ _ => trivial) hempty

instance (provider : Provider) (pool : Pool AclStore AclCall AclOutcome) :
    (move : Move AclRequest Unit) → Decidable (KeepsPolicies provider pool move)
  | .start _ => .isTrue trivial
  | .resume index _ => inferInstanceAs (Decidable (∀ call ∈ pool.calls[index]?, _))

def samplePolicy : JsString := "projects/p/locations/l/aclPolicies/a"

def sampleCreate : AclRequest := .create "p" "l" "a" none

/-- An update of the rules. -/
def sampleUpdate (rules : JsString) : AclRequest := .update samplePolicy (some rules) []

/-- The segments of the calls at some indices. -/
def resumes (indices : List ℕ) : List (Move AclRequest Unit) :=
  indices.map fun index => .resume index ()

def createAlone : List (Move AclRequest Unit) := .start sampleCreate :: resumes [0, 0, 0, 0, 0]

/-- An update, a read, and a delete with the etag that the read returned, that of the update. -/
def readThenDelete : List (Move AclRequest Unit) :=
  createAlone ++ .start (sampleUpdate "[1]") :: resumes [0, 0, 0, 0, 0, 0] ++
    .start (.get samplePolicy) :: resumes [0] ++
    .start (.delete samplePolicy (some 1)) :: resumes [0, 0, 0, 0, 0]

/-- Two updates count the revisions before either has inserted one. -/
def overlappingUpdates : List (Move AclRequest Unit) :=
  createAlone ++ .start (sampleUpdate "[1]") :: .start (sampleUpdate "[2]") ::
    resumes [0, 1, 0, 1, 0, 1, 0, 1, 0, 1, 0, 0]

/-- A delete runs between the write of an update and its snapshot. -/
def deleteOvertakesUpdate : List (Move AclRequest Unit) :=
  createAlone ++ .start (sampleUpdate "[1]") :: .start (.delete samplePolicy none) ::
    resumes [0, 0, 0, 0, 1, 1, 1, 1, 1, 0, 0]

/-- An update writes between the comparison of an etag and the removal. -/
def updateOvertakesDelete : List (Move AclRequest Unit) :=
  createAlone ++ .start (.get samplePolicy) :: resumes [0] ++
    .start (.delete samplePolicy (some 0)) :: .start (sampleUpdate "[1]") ::
    resumes [0, 1, 1, 1, 1, 1, 1, 0, 0, 0, 0]

end runs

end Kinglet.Memorystore
