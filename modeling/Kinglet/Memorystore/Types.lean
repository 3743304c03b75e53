import Kinglet.Js.Separators

/-!
# Errors and names of Memorystore

The names of resources are their collections and identifiers in turn, with slashes between them.
-/

namespace Kinglet.Memorystore

open Js

inductive MemoryStoreErrorCode where
  | notFound
  | alreadyExists
  | invalidArgument
  | failedPrecondition
  | aborted
deriving DecidableEq

/-- What a call throws: a `MemoryStoreError`, or another error. -/
inductive Thrown where
  | memoryStore (code : MemoryStoreErrorCode) (message : JsString)
  | error (message : JsString)
deriving DecidableEq

/-! ## Names -/

/-- The collections and the identifiers in turn. -/
def namePath : List JsString → List JsString → List JsString
  | collection :: collections, id :: ids => collection :: id :: namePath collections ids
  | _, _ => []

def buildName (collections ids : List JsString) : JsString :=
  join [unit '/'] (namePath collections ids)

def parsePath : List JsString → List JsString → Option (List JsString)
  | [], [] => some []
  | collection :: collections, segment :: id :: rest =>
      if segment = collection ∧ id ≠ [] then (parsePath collections rest).map (id :: ·) else none
  | _, _ => none

/-- The identifiers of a name with these collections, `none` where the pattern does not match. -/
def parseName (collections : List JsString) (name : JsString) : Option (List JsString) :=
  parsePath collections (splitUnit (unit '/') name)

theorem namePath_of_parsePath {collections segments ids : List JsString}
    (h : parsePath collections segments = some ids) : namePath collections ids = segments := by
  induction collections, segments using parsePath.induct generalizing ids with
  | case1 =>
      obtain rfl := Option.some.inj h
      rfl
  | case2 collection collections segment id rest hsegment ih =>
      rw [parsePath, if_pos hsegment] at h
      obtain ⟨ids, hids, rfl⟩ := Option.map_eq_some_iff.1 h
      rw [namePath, ih hids, hsegment.1]
  | case3 collection collections segment id rest hsegment =>
      rw [parsePath, if_neg hsegment] at h
      cases h
  | case4 collections segments hnil hcons =>
      rw [parsePath.eq_3 _ _ hnil hcons] at h
      cases h

theorem mem_of_parsePath {collections segments ids : List JsString} {id : JsString}
    (h : parsePath collections segments = some ids) (hid : id ∈ ids) : id ∈ segments := by
  induction collections, segments using parsePath.induct generalizing ids with
  | case1 =>
      obtain rfl := Option.some.inj h
      cases hid
  | case2 collection collections segment first rest hsegment ih =>
      rw [parsePath, if_pos hsegment] at h
      obtain ⟨ids, hids, rfl⟩ := Option.map_eq_some_iff.1 h
      rcases List.mem_cons.1 hid with rfl | hid
      · exact List.mem_cons_of_mem _ List.mem_cons_self
      · exact List.mem_cons_of_mem _ (List.mem_cons_of_mem _ (ih hids hid))
  | case3 collection collections segment first rest hsegment =>
      rw [parsePath, if_neg hsegment] at h
      cases h
  | case4 collections segments hnil hcons =>
      rw [parsePath.eq_3 _ _ hnil hcons] at h
      cases h

/-- The identifiers of a name have no slashes. -/
theorem slash_notMem_of_parseName {collections ids : List JsString} {name id : JsString}
    (h : parseName collections name = some ids) (hid : id ∈ ids) : unit '/' ∉ id :=
  notMem_of_mem_splitUnit (mem_of_parsePath h hid)

/-- A name is what its identifiers make. -/
theorem buildName_of_parseName {collections ids : List JsString} {name : JsString}
    (h : parseName collections name = some ids) : buildName collections ids = name := by
  rw [buildName, namePath_of_parsePath h]
  exact List.intercalate_splitOn (unit '/')

end Kinglet.Memorystore
