import Kinglet.Js.Words
import Kinglet.Library.Paging
import Kinglet.Storage.Prefix

/-!
# Walking the pages of a prefix

The token of a page is the decimal text of its offset into the rows that the filter lets through, sorted
by name, so the walk from the first page lists these rows. They are the resources beneath the prefix if
`LIKE` tells so.
-/

namespace Kinglet.Storage

open Js Library Library.Paging

/-- A digit is neither a space nor a sign. -/
theorem plain_of_isDigit {u : UInt16} (h : isDigit u) :
    isSpace u = false ∧ u ≠ 0x2D ∧ u ≠ 0x2B := by
  refine ⟨isSpace_of_isDigit h, ?_, ?_⟩
  · rintro rfl
    exact absurd h (by decide)
  · rintro rfl
    exact absurd h (by decide)

/-- A token reads back as the offset that it was made of. -/
theorem parseOffsetToken_decimal (offset : ℕ) : parseOffsetToken (some (decimal offset)) = offset := by
  have hdigits : ∀ u ∈ decimal offset, isDigit u := fun u hu => isDigit_of_mem_decimal hu
  have hvalue := digitsValue_decimal offset
  unfold parseOffsetToken
  rw [Option.getD_some]
  cases htext : decimal offset with
  | nil =>
      rw [htext] at hvalue
      exact hvalue
  | cons u rest =>
      rw [htext] at hdigits hvalue
      obtain ⟨hspace, hminus, hplus⟩ := plain_of_isDigit (hdigits u List.mem_cons_self)
      have htrim : trimStart (u :: rest) = u :: rest :=
        List.dropWhile_cons_of_neg (by rw [hspace]; exact Bool.false_ne_true)
      have htake : (u :: rest).takeWhile isDigit = u :: rest :=
        List.takeWhile_eq_self_iff.2 hdigits
      rw [htrim]
      split
      · rename_i heq
        exact absurd (List.cons.inj heq).1 hminus
      · rename_i heq
        exact absurd (List.cons.inj heq).1 hplus
      · rw [htake]
        exact hvalue

variable {α : Type*} {provider : Provider} {table : Table α} {stem : JsString} {size : ℕ}

/-- The page at a token. -/
def pageAt (provider : Provider) (table : Table α) (stem : JsString) (size : ℕ)
    (token : Option JsString) : Page (Option JsString) (Row α) where
  items := (listByPrefix provider table stem (some size) token).records
  next := (listByPrefix provider table stem (some size) token).nextPageToken.map some

theorem offsets_pageAt (hsize : 0 < size) :
    Offsets (pageAt provider table stem size) (fun offset => some (decimal offset)) size
      (sortByName provider (matching provider table stem)) where
  items offset := by
    have hlimit : size ≠ 0 := by omega
    rw [pageAt, listByPrefix, parseOffsetToken_decimal]
    cases provider <;> exact if_neg hlimit
  next offset := by
    have hlimit : decide (size ≠ 0) = true := decide_eq_true (by omega)
    rw [pageAt, listByPrefix, parseOffsetToken_decimal, Option.getD_some, paginate_hasMore, hlimit,
      Bool.true_and]
    by_cases hmore : offset + size < (sortByName provider (matching provider table stem)).length
    · simp [hmore]
    · simp [hmore]

/-- Without a token, the first page. -/
theorem pageAt_none : pageAt provider table stem size none =
    pageAt provider table stem size (some (decimal 0)) := by
  have hzero : parseOffsetToken (some (decimal 0)) = parseOffsetToken none :=
    parseOffsetToken_decimal 0
  unfold pageAt listByPrefix
  rw [hzero]

theorem nameLe_total (provider : Provider) (a b : JsString) :
    nameLe provider a b ∨ nameLe provider b a := by
  cases provider with
  | memory =>
      simp only [nameLe, Bool.not_eq_true', decide_eq_false_iff_not]
      exact List.le_total a b
  | sqlite =>
      simp only [nameLe, Bool.not_eq_true', decide_eq_false_iff_not]
      exact List.le_total (encode a) (encode b)

theorem nameLe_trans (provider : Provider) {a b c : JsString} (hab : nameLe provider a b)
    (hbc : nameLe provider b c) : nameLe provider a c := by
  cases provider with
  | memory =>
      simp only [nameLe, Bool.not_eq_true', decide_eq_false_iff_not] at hab hbc ⊢
      exact List.le_trans hab hbc
  | sqlite =>
      simp only [nameLe, Bool.not_eq_true', decide_eq_false_iff_not] at hab hbc ⊢
      exact List.le_trans hab hbc

theorem pairwise_sortByName (rows : List (Row α)) :
    (sortByName provider rows).Pairwise fun a b => nameLe provider a.name b.name := by
  have htotal : Std.Total fun a b : Row α => (nameLe provider a.name b.name : Prop) :=
    ⟨fun a b => nameLe_total provider a.name b.name⟩
  have htrans : IsTrans (Row α) fun a b => nameLe provider a.name b.name :=
    ⟨fun _ _ _ hab hbc => nameLe_trans provider hab hbc⟩
  exact List.pairwise_insertionSort _ rows

/-- The walk from the first page ends; it lists the resources beneath the prefix, each once, by name, on
full pages but for the last. -/
def WalksBeneath (provider : Provider) (table : Table α) (stem : JsString) (size : ℕ) : Prop :=
  ∃ pages, Walk (pageAt provider table stem size) none pages ∧
    pages.flatten.Perm (beneath table stem) ∧
    (pages.flatten.Pairwise fun a b => nameLe provider a.name b.name) ∧
    ∀ rows ∈ pages.dropLast, rows.length = size

/-- The walk from the first page lists what the filter lets through. -/
theorem exists_walk_matching (provider : Provider) (table : Table α) (stem : JsString)
    (hsize : 0 < size) :
    ∃ pages, Walk (pageAt provider table stem size) none pages ∧
      pages.flatten = sortByName provider (matching provider table stem) ∧
      ∀ rows ∈ pages.dropLast, rows.length = size := by
  obtain ⟨pages, hwalk, hflatten, hfull⟩ := (offsets_pageAt hsize).exists_walk hsize 0
  exact ⟨pages, hwalk.of_page_eq pageAt_none.symm, hflatten, hfull⟩

theorem perm_sortByName (rows : List (Row α)) : (sortByName provider rows).Perm rows :=
  List.perm_insertionSort _ _

/-- A walk that lists the resources beneath the prefix lists what the filter lets through. -/
theorem WalksBeneath.like_eq (hsize : 0 < size) (h : WalksBeneath provider table stem size)
    {row : Row α} (hrow : row ∈ table.rows) :
    like provider row.name (stem ++ js "%") = startsWith row.name stem := by
  obtain ⟨pages, hwalk, hbeneath, -, -⟩ := h
  obtain ⟨pages', hwalk', hflatten, -⟩ :=
    exists_walk_matching provider table stem hsize
  obtain rfl := hwalk.unique hwalk'
  rw [hflatten] at hbeneath
  have hmem : row ∈ matching provider table stem ↔ row ∈ beneath table stem :=
    ((perm_sortByName _).symm.trans hbeneath).mem_iff
  simp only [matching, beneath, List.mem_filter, hrow, true_and] at hmem
  exact Bool.eq_iff_iff.2 hmem

/-- **Page-token walks** end with every resource beneath the prefix, in the order of names, if and only
if the provider's `LIKE` tells which of the stored names start with the prefix. -/
theorem page_token_walk (provider : Provider) (table : Table α) (stem : JsString) (size : ℕ)
    (hsize : 0 < size) :
    WalksBeneath provider table stem size ↔
      ∀ row ∈ table.rows, like provider row.name (stem ++ js "%") = startsWith row.name stem := by
  constructor
  · exact fun h row hrow => h.like_eq hsize hrow
  · intro hlike
    have hmatching : matching provider table stem = beneath table stem := List.filter_congr hlike
    obtain ⟨pages, hwalk, hflatten, hfull⟩ := exists_walk_matching provider table stem hsize
    rw [hmatching] at hflatten
    refine ⟨pages, hwalk, ?_, ?_, hfull⟩
    · rw [hflatten]
      exact perm_sortByName _
    · rw [hflatten]
      exact pairwise_sortByName _

/-- Three topics on pages of two, beside one whose name does not match. -/
def topicTable : Table Unit :=
  ⟨[⟨0, "projects/p/topics/b", ()⟩, ⟨1, "projects/p/topics/a", ()⟩, ⟨2, "projects/q/topics/c", ()⟩,
    ⟨3, "projects/p/topics/c", ()⟩], 4⟩

theorem page_token_walk_topics :
    WalksBeneath .sqlite topicTable "projects/p/topics/" 2 ↔
      ∀ row ∈ topicTable.rows,
        like .sqlite row.name (js "projects/p/topics/" ++ js "%") =
          startsWith row.name "projects/p/topics/" :=
  page_token_walk .sqlite topicTable "projects/p/topics/" 2 (by decide)

/-- In SQLite `_` lets the hyphen through, so a topic of another project is listed. -/
theorem not_page_token_walk :
    ¬ ∀ (provider : Provider) (table : Table Unit) (stem : JsString) (size : ℕ), 0 < size →
      WalksBeneath provider table stem size := by
  intro h
  have hwalks := h .sqlite hyphenTable "projects/my_app/topics/" 1 (by decide)
  have hlike := hwalks.like_eq (by decide) List.mem_cons_self
  exact absurd hlike (by decide +kernel)

end Kinglet.Storage
