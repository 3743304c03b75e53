import Kinglet.Gcs.ObjectService
import Kinglet.Storage.PageWalk

/-!
# Lists with a delimiter

`listObjectsWithDelimiter` takes the objects behind a prefix in the order of their names. Those whose names
have the delimiter behind the prefix are grouped by what comes before it, and a group is one item, in the
place of its first object. Page tokens are offsets into the items.
-/

namespace Kinglet.Gcs

open Js Library Library.Paging

/-! ## The source -/

inductive ListItem
  | object (record : ObjectRecord)
  | group (value : JsString)

def ListItem.record? : ListItem → Option ObjectRecord
  | .object record => some record
  | .group _ => none

def ListItem.value? : ListItem → Option JsString
  | .object _ => none
  | .group value => some value

/-- `text.indexOf(search)` -/
def indexOf (text search : JsString) : Option ℕ := text.tails.findIdx? search.isPrefixOf

/-- The part of a name up to the delimiter, where it comes behind the prefix of the list. -/
def groupOf (prefixLen : ℕ) (delimiter name : JsString) : Option JsString :=
  (indexOf (name.drop prefixLen) delimiter).map fun delimIdx =>
    name.take (prefixLen + delimIdx + delimiter.length)

/-- One turn of the loop, with `seenPrefixes` and `combined`. -/
def combine (prefixLen : ℕ) (delimiter : JsString) (found : List JsString × List ListItem)
    (record : ObjectRecord) : List JsString × List ListItem :=
  match groupOf prefixLen delimiter record.name with
  | none => (found.1, found.2 ++ [.object record])
  | some value =>
      if value ∈ found.1 then found else (found.1 ++ [value], found.2 ++ [.group value])

/-- The handler asks for a positive number of items, or for none. -/
abbrev MaxResults := Option {limit : ℕ // 0 < limit}

def MaxResults.limit (maxResults : MaxResults) : ℕ := (maxResults.map Subtype.val).getD 1000

theorem MaxResults.limit_pos (maxResults : MaxResults) : 0 < maxResults.limit := by
  cases maxResults with
  | none => decide
  | some limit => exact limit.2

structure ListObjectsResult where
  objects : List ObjectRecord
  prefixes : List JsString
  nextPageToken : Option JsString

section Source

variable (provider : Storage.Provider) (store : ObjectStore) (bucket stem delimiter : JsString)
  (maxResults : MaxResults) (pageToken : Option JsString)

/-- What the filter lets through, where an empty prefix is none. -/
def listedRecords : List ObjectRecord :=
  ((store.rows.map ObjectRow.record).filter fun record => record.bucket = bucket ∧
    (stem = [] ∨ Storage.like provider record.name (stem ++ js "%"))).insertionSort
      fun a b => Storage.nameLe provider a.name b.name

def combined : List ListItem :=
  ((listedRecords provider store bucket stem).foldl (combine stem.length delimiter) ([], [])).2

/-- The slice of the items, and the next token. -/
def slicePage : Page (Option JsString) ListItem :=
  let items := combined provider store bucket stem delimiter
  let offset := Storage.parseOffsetToken pageToken
  ⟨(items.drop offset).take maxResults.limit,
    if offset + maxResults.limit < items.length then some (some (decimal (offset + maxResults.limit)))
    else none⟩

def listObjectsWithDelimiter : ListObjectsResult :=
  let page := slicePage provider store bucket stem delimiter maxResults pageToken
  ⟨page.items.filterMap ListItem.record?, page.items.filterMap ListItem.value?, page.next.join⟩

end Source

/-! ## Items -/

/-- The items are the records without a group, and each group once. -/
structure Groups (prefixLen : ℕ) (delimiter : JsString) (records : List ObjectRecord)
    (seenPrefixes : List JsString) (items : List ListItem) : Prop where
  objects : items.filterMap ListItem.record? =
    records.filter fun record => (groupOf prefixLen delimiter record.name).isNone
  values : items.filterMap ListItem.value? = seenPrefixes
  nodup : seenPrefixes.Nodup
  mem : ∀ value, value ∈ seenPrefixes ↔
    ∃ record ∈ records, groupOf prefixLen delimiter record.name = some value

theorem Groups.step {prefixLen : ℕ} {delimiter : JsString} {records : List ObjectRecord}
    {found : List JsString × List ListItem} (h : Groups prefixLen delimiter records found.1 found.2)
    (record : ObjectRecord) : Groups prefixLen delimiter (records ++ [record])
      (combine prefixLen delimiter found record).1 (combine prefixLen delimiter found record).2 := by
  have hmem : ∀ value, (∃ other ∈ records ++ [record],
      groupOf prefixLen delimiter other.name = some value) ↔
        value ∈ found.1 ∨ groupOf prefixLen delimiter record.name = some value := by
    simp [or_and_right, exists_or, h.mem]
  rw [combine]
  cases hgroup : groupOf prefixLen delimiter record.name with
  | none =>
    refine ⟨?_, ?_, h.nodup, fun value => ?_⟩
    · simp [h.objects, hgroup, ListItem.record?]
    · simp [h.values, ListItem.value?]
    · simp [hgroup, h.mem]
  | some value =>
    dsimp only
    split
    · -- the group has its item
      rename_i hseen
      refine ⟨by simp [h.objects, hgroup], h.values, h.nodup, fun other => ?_⟩
      rw [hmem, hgroup]
      exact ⟨.inl, fun hor => hor.elim id fun heq => Option.some.inj heq ▸ hseen⟩
    · -- the first name of its group
      rename_i hnew
      refine ⟨by simp [h.objects, hgroup, ListItem.record?], by simp [h.values, ListItem.value?],
        h.nodup.append (List.nodup_singleton _) (List.disjoint_singleton.2 hnew), fun other => ?_⟩
      rw [hmem, hgroup, List.mem_append, List.mem_singleton, Option.some_inj, eq_comm]

theorem groups_foldl (prefixLen : ℕ) (delimiter : JsString) (records : List ObjectRecord) :
    Groups prefixLen delimiter records (records.foldl (combine prefixLen delimiter) ([], [])).1
      (records.foldl (combine prefixLen delimiter) ([], [])).2 := by
  induction records using List.reverseRecOn with
  | nil => constructor <;> simp
  | append_singleton records record ih =>
    rw [List.foldl_append]
    exact ih.step record

/-! ## Pages -/

section Pages

variable {provider : Storage.Provider} {store : ObjectStore} {bucket stem delimiter : JsString}
  {maxResults : MaxResults}

theorem offsets_slicePage : Offsets (slicePage provider store bucket stem delimiter maxResults)
    (fun offset => some (decimal offset)) maxResults.limit
    (combined provider store bucket stem delimiter) where
  items offset := by rw [slicePage, Storage.parseOffsetToken_decimal]
  next offset := by rw [slicePage, Storage.parseOffsetToken_decimal]

end Pages

end Kinglet.Gcs
