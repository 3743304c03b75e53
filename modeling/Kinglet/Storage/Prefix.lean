import Kinglet.Js.Utf8
import Kinglet.Library.Wildcard
import Kinglet.Storage.Repository
import Mathlib.Data.List.Sort

/-!
# Operations on a prefix

A repository lists, counts and deletes the resources beneath a prefix through a `LIKE` filter on the
name, the prefix followed by `%`. The in-memory provider drops the `%` signs and looks for the rest
anywhere in the name; SQLite reads `%` and `_` as wildcards and ignores the case of ASCII letters.
-/

namespace Kinglet.Storage

open Js Library

/-! ## `LIKE` -/

/-- The characters of a text as SQLite stores it. -/
def points (text : JsString) : List ℕ := (codePoints text).map toScalar

def likeSymbol (point : ℕ) : Symbol ℕ :=
  if point = 0x25 then .many else if point = 0x5F then .one else .exact point

def foldCase (point : ℕ) : ℕ := if 0x41 ≤ point ∧ point ≤ 0x5A then point + 0x20 else point

def sameLetter (a b : ℕ) : Bool := foldCase a = foldCase b

/-- The operator `like`. -/
def like : Provider → JsString → JsString → Bool
  | .memory, recordValue, value => includes recordValue (value.filter fun u => u ≠ 0x25)
  | .sqlite, recordValue, value =>
      Symbol.matchesText sameLetter ((points value).map likeSymbol) (points recordValue)

/-! ## Queries -/

/-- `parseOffsetToken(raw)`: a token that is no number, or a negative one, means the beginning. -/
def parseOffsetToken (raw : Option JsString) : ℕ :=
  match trimStart (raw.getD []) with
  | 0x2D :: _ => 0
  | 0x2B :: digits => digitsValue (digits.takeWhile isDigit)
  | digits => digitsValue (digits.takeWhile isDigit)

/-- `DEFAULT_LIST_PAGE_SIZE`. -/
def defaultListPageSize : ℕ := 100

variable {α : Type*}

/-- The order of names: by code units in memory, by the bytes of the text in SQLite. -/
def nameLe : Provider → JsString → JsString → Bool
  | .memory, a, b => !decide (b < a)
  | .sqlite, a, b => !decide (encode b < encode a)

def sortByName (provider : Provider) (rows : List (Row α)) : List (Row α) :=
  rows.insertionSort fun a b => nameLe provider a.name b.name

structure QueryResult (α : Type*) where
  data : List (Row α)
  total : ℕ
  hasMore : Bool

/-- A page of the rows that a filter and a sort yield; a limit of `0` is no limit. -/
def paginate (provider : Provider) (rows : List (Row α)) (limit offset : ℕ) : QueryResult α :=
  let data := if limit = 0 then rows else (rows.drop offset).take limit
  match provider with
  | .memory => ⟨data, rows.length, limit ≠ 0 && decide (offset + limit < rows.length)⟩
  | .sqlite => ⟨data, rows.length, decide (offset + data.length < rows.length)⟩

structure ListByPrefixResult (α : Type*) where
  records : List (Row α)
  nextPageToken : Option JsString

section Operations

variable (provider : Provider) (table : Table α) (stem : JsString)

/-- The rows that the filter lets through. -/
def matching : List (Row α) := table.rows.filter fun row => like provider row.name (stem ++ js "%")

/-- `listByPrefix(prefix, pageSize, pageToken)`. -/
def listByPrefix (pageSize : Option ℕ) (pageToken : Option JsString) : ListByPrefixResult α :=
  let offset := parseOffsetToken pageToken
  let limit := pageSize.getD defaultListPageSize
  let result := paginate provider (sortByName provider (matching provider table stem)) limit offset
  ⟨result.data, if result.hasMore then some (decimal (offset + limit)) else none⟩

/-- `listAllByPrefix(prefix)`. -/
def listAllByPrefix : List (Row α) := sortByName provider (matching provider table stem)

/-- `countByPrefix(prefix)`. -/
def countByPrefix : ℕ := (matching provider table stem).length

/-- `deleteByPrefix(prefix)`: the table without the rows, and how many they were. -/
def deleteByPrefix : Table α × ℕ :=
  ({ table with
      rows := table.rows.filter fun row => !like provider row.name (stem ++ js "%") },
    (matching provider table stem).length)

/-! ## What the operations are for -/

/-- The rows beneath a prefix: their names start with it. -/
def beneath : List (Row α) := table.rows.filter fun row => startsWith row.name stem

/-- A page of the rows beneath a prefix, and where the next one starts if there is one. -/
def pageBeneath (limit offset : ℕ) : ListByPrefixResult α :=
  let rows := sortByName provider (beneath table stem)
  if limit = 0 then ⟨rows, none⟩
  else
    ⟨(rows.drop offset).take limit,
      if offset + limit < rows.length then some (decimal (offset + limit)) else none⟩

/-- The operations list, count and delete exactly the rows beneath the prefix. -/
structure PrefixExact : Prop where
  lists : ∀ pageSize pageToken, listByPrefix provider table stem pageSize pageToken =
    pageBeneath provider table stem (pageSize.getD defaultListPageSize) (parseOffsetToken pageToken)
  listsAll : listAllByPrefix provider table stem = sortByName provider (beneath table stem)
  counts : countByPrefix provider table stem = (beneath table stem).length
  deletes : deleteByPrefix provider table stem =
    ({ table with rows := table.rows.filter fun row => !startsWith row.name stem },
      (beneath table stem).length)

end Operations

variable {provider : Provider} {table : Table α} {stem name : JsString}

/-- Both providers tell in the same way whether there is a next page. -/
theorem paginate_hasMore (rows : List (Row α)) (limit offset : ℕ) :
    (paginate provider rows limit offset).hasMore =
      (limit ≠ 0 && decide (offset + limit < rows.length)) := by
  cases provider with
  | memory => rfl
  | sqlite =>
      rw [paginate]
      by_cases hlimit : limit = 0
      · simp [hlimit]
      · simp only [hlimit, if_false, List.length_take, List.length_drop, ne_eq,
          not_false_eq_true, decide_true, Bool.true_and, decide_eq_decide]
        omega

theorem listByPrefix_eq_pageBeneath (h : matching provider table stem = beneath table stem)
    (pageSize : Option ℕ) (pageToken : Option JsString) :
    listByPrefix provider table stem pageSize pageToken =
      pageBeneath provider table stem (pageSize.getD defaultListPageSize)
        (parseOffsetToken pageToken) := by
  rw [listByPrefix, pageBeneath, h, paginate_hasMore]
  by_cases hlimit : pageSize.getD defaultListPageSize = 0
  · cases provider <;> simp [paginate, hlimit]
  · cases provider <;> simp [paginate, hlimit]

/-- A filter determines its test on the list. -/
theorem filter_eq_filter_iff {β : Type*} {p q : β → Bool} {l : List β} :
    l.filter p = l.filter q ↔ ∀ x ∈ l, p x = q x := by
  constructor
  · intro heq x hx
    have hmem : x ∈ l.filter p ↔ x ∈ l.filter q := by rw [heq]
    simp only [List.mem_filter, hx, true_and] at hmem
    exact Bool.eq_iff_iff.2 hmem
  · intro h
    exact List.filter_congr h

/-- The operations rest on `LIKE` alone. -/
theorem prefixExact_iff_like (provider : Provider) (table : Table α) (stem : JsString) :
    PrefixExact provider table stem ↔
      ∀ row ∈ table.rows, like provider row.name (stem ++ js "%") = startsWith row.name stem := by
  constructor
  · intro h
    have hrows := congrArg (fun result => result.1.rows) h.deletes
    have hnot := filter_eq_filter_iff.1 hrows
    intro row hrow
    exact Bool.not_inj (hnot row hrow)
  · intro h
    have hmatching : matching provider table stem = beneath table stem := List.filter_congr h
    refine ⟨listByPrefix_eq_pageBeneath hmatching, ?_, ?_, ?_⟩
    · rw [listAllByPrefix, hmatching]
    · rw [countByPrefix, hmatching]
    · rw [deleteByPrefix, hmatching]
      have hrest : (table.rows.filter fun row => !like provider row.name (stem ++ js "%")) =
          table.rows.filter fun row => !startsWith row.name stem :=
        List.filter_congr fun row hrow => congrArg Bool.not (h row hrow)
      rw [hrest]

/-! ## Prefixes without surprises -/

/-- Without percent signs, the in-memory provider finds every name that starts with the prefix. -/
theorem like_memory_of_startsWith (hplain : (0x25 : UInt16) ∉ stem)
    (h : startsWith name stem = true) : like .memory name (stem ++ js "%") = true := by
  have hstem : stem.filter (fun u => u ≠ 0x25) = stem :=
    List.filter_eq_self.2 fun u hu => decide_eq_true fun heq => hplain (heq ▸ hu)
  have hdropped : (stem ++ js "%").filter (fun u => u ≠ 0x25) = stem := by
    rw [List.filter_append, hstem]
    exact List.append_nil stem
  rw [like, hdropped, includes, List.any_eq_true]
  exact ⟨name, (List.mem_tails _ _).2 (List.suffix_refl name), h⟩

theorem standsFor_likeSymbol (point : ℕ) :
    Symbol.StandsFor sameLetter (likeSymbol point) point := by
  intro expected h
  unfold likeSymbol at h
  split at h
  · cases h
  · split at h
    · cases h
    · obtain rfl := Symbol.exact.inj h
      exact decide_eq_true rfl

theorem codePoints_append {front : JsString} (hfront : WellFormed front) (back : JsString) :
    codePoints (front ++ back) = codePoints front ++ codePoints back := by
  induction front using codePoints.induct with
  | case1 => rfl
  | case2 u =>
      have hscalar : IsScalar u.toNat := hfront u.toNat List.mem_cons_self
      have hhigh : isHighSurrogate u = false := by
        simp only [isHighSurrogate, IsScalar, Bool.and_eq_false_iff, decide_eq_false_iff_not,
          UInt16.le_iff_toNat_le] at hscalar ⊢
        have h1 : (0xD800 : UInt16).toNat = 0xD800 := rfl
        have h2 : (0xDBFF : UInt16).toNat = 0xDBFF := rfl
        omega
      cases back with
      | nil => rfl
      | cons v back =>
          simp [codePoints, hhigh]
  | case3 u v rest hpair ih =>
      have hrest : WellFormed rest := fun point hpoint =>
        hfront point (by rw [codePoints, if_pos hpair]; exact List.mem_cons_of_mem _ hpoint)
      simp only [List.cons_append, codePoints, if_pos hpair, ih hrest]
  | case4 u v rest hpair ih =>
      have hrest : WellFormed (v :: rest) := fun point hpoint =>
        hfront point (by rw [codePoints, if_neg hpair]; exact List.mem_cons_of_mem _ hpoint)
      have hrest := ih hrest
      rw [List.cons_append] at hrest
      simp only [List.cons_append, codePoints, if_neg hpair, hrest]

/-- SQLite finds every name that starts with the prefix. -/
theorem like_sqlite_of_startsWith (hstem : WellFormed stem) (h : startsWith name stem = true) :
    like .sqlite name (stem ++ js "%") = true := by
  obtain ⟨rest, rfl⟩ := List.isPrefixOf_iff_prefix.1 h
  have hpattern : (points (stem ++ js "%")).map likeSymbol =
      (points stem).map likeSymbol ++ [.many] := by
    rw [points, codePoints_append hstem, List.map_append, List.map_append]
    rfl
  have htext : points (stem ++ rest) = points stem ++ points rest := by
    rw [points, codePoints_append hstem, List.map_append]
    rfl
  rw [like, hpattern, htext]
  refine Symbol.matchesText_append_many (List.forall₂_map_left_iff.2 ?_)
  exact List.forall₂_same.2 fun point _ => standsFor_likeSymbol point

/-- For a well-formed prefix without percent signs, operations are exact unless the filter lets
through another name. -/
theorem prefixExact_iff_of_plain (hstem : WellFormed stem) (hplain : (0x25 : UInt16) ∉ stem) :
    PrefixExact provider table stem ↔ ∀ row ∈ table.rows,
      like provider row.name (stem ++ js "%") = true → startsWith row.name stem = true := by
  have hfinds : ∀ name, startsWith name stem = true → like provider name (stem ++ js "%") = true := by
    intro name hname
    cases provider with
    | memory => exact like_memory_of_startsWith hplain hname
    | sqlite => exact like_sqlite_of_startsWith hstem hname
  rw [prefixExact_iff_like]
  refine forall₂_congr fun row _ => ⟨fun h hlike => h ▸ hlike, fun h => ?_⟩
  exact Bool.eq_iff_iff.2 ⟨h, hfinds row.name⟩

/-- **Operations on a prefix** are exact when, and only when, the provider's `LIKE` tells which of
the stored names start with the prefix. For an ordinary prefix this means that no other stored name
is let through. -/
theorem prefix_operations_exact (provider : Provider) (table : Table α) (stem : JsString) :
    (PrefixExact provider table stem ↔
      ∀ row ∈ table.rows, like provider row.name (stem ++ js "%") = startsWith row.name stem) ∧
    (WellFormed stem → (0x25 : UInt16) ∉ stem →
      (PrefixExact provider table stem ↔ ∀ row ∈ table.rows,
        like provider row.name (stem ++ js "%") = true → startsWith row.name stem = true)) :=
  ⟨prefixExact_iff_like provider table stem, prefixExact_iff_of_plain⟩

/-- A topic of another project, in which a hyphen stands where the prefix has an underscore. -/
def hyphenTable : Table Unit := ⟨[⟨0, "projects/my-app/topics/t", ()⟩], 1⟩

theorem prefix_operations_exact_plain :
    PrefixExact .sqlite hyphenTable "projects/other/topics/" :=
  ((prefix_operations_exact .sqlite hyphenTable "projects/other/topics/").2 (by decide +kernel)
    (by decide +kernel)).2 (by decide +kernel)

/-- In SQLite `_` lets the hyphen through; in memory any place in the name will do. -/
theorem not_prefix_operations_exact :
    ¬PrefixExact .sqlite hyphenTable "projects/my_app/topics/" ∧
      ¬PrefixExact .memory hyphenTable "my-app/topics/" := by
  constructor
  · intro h
    have hcount := h.counts
    exact absurd hcount (by decide +kernel)
  · intro h
    have hcount := h.counts
    exact absurd hcount (by decide +kernel)

end Kinglet.Storage
