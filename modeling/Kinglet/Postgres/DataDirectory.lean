import Kinglet.Js.Utf8
import Mathlib.Data.List.DropRight
import Mathlib.Tactic.Tauto

/-!
# Data directories

A database is named by a project, an instance and a database; its files lie in a directory of that
depth under the data root, one segment a name, and a whole instance is one directory above. A drop
is of a database or of an instance, and the set of drops in progress holds the text of either.

`Scope.id_inj`: the text of a database or an instance determines it.
-/

namespace Kinglet.Postgres

open Js

/-! ## Segments -/

/-- `encodePathSegment(segment)`, `none` when `encodeURIComponent` throws. -/
def encodePathSegment (segment : JsString) : Option JsString :=
  (encodeURIComponent segment).map fun text =>
    text.flatMap fun u => if u = unit '.' then js "%2E" else [u]

/-- The text of one byte of a name. -/
def segmentByte (b : ℕ) : JsString := if b = 46 then js "%2E" else escapeByte b

theorem toUInt16_inj {b c : ℕ} (hb : b < 256) (hc : c < 256) (h : b.toUInt16 = c.toUInt16) :
    b = c := by
  have hnat := congrArg UInt16.toNat h
  simp only [Nat.toUInt16, UInt16.toNat_ofNat'] at hnat
  omega

theorem toUInt16_ne {b : ℕ} (hb : b < 256) {u : UInt16} (hne : b ≠ u.toNat) :
    b.toUInt16 ≠ u := by
  rintro rfl
  simp only [Nat.toUInt16, UInt16.toNat_ofNat'] at hne
  omega

/-- A hexadecimal digit is neither a dot nor a slash. -/
theorem hexDigit_ne {n : ℕ} (hn : n < 16) : hexDigit n ≠ unit '.' ∧ hexDigit n ≠ unit '/' := by
  revert hn n
  decide

theorem flatMap_escapeByte {b : ℕ} (hb : b < 256) :
    (escapeByte b).flatMap (fun u => if u = unit '.' then js "%2E" else [u]) = segmentByte b := by
  by_cases hdot : b = 46
  · subst hdot
    decide
  · rw [segmentByte, if_neg hdot]
    unfold escapeByte
    split
    · have hne : b.toUInt16 ≠ unit '.' := toUInt16_ne hb hdot
      simp [hne]
    · have hhigh := (hexDigit_ne (n := b / 16) (by omega)).1
      have hlow := (hexDigit_ne (n := b % 16) (by omega)).1
      have hpercent : unit '%' ≠ unit '.' := by decide
      simp [hhigh, hlow, hpercent]

theorem encodePathSegment_eq {segment : JsString} (hw : WellFormed segment) :
    encodePathSegment segment = some ((encode segment).flatMap segmentByte) := by
  rw [encodePathSegment, encodeURIComponent, if_pos hw, Option.map_some, List.flatMap_assoc]
  congr 1
  rw [List.flatMap_def, List.flatMap_def]
  congr 1
  exact List.map_congr_left fun b hb => flatMap_escapeByte (encode_lt segment b hb)

theorem segmentByte_cases {b : ℕ} : (b < 128 ∧ isUriUnescaped b = true ∧ b ≠ 46 ∧
    segmentByte b = [b.toUInt16]) ∨
      segmentByte b = [unit '%', hexDigit (b / 16), hexDigit (b % 16)] := by
  unfold segmentByte escapeByte
  split
  · subst b
    exact .inr (by decide)
  · split
    · exact .inl ⟨(‹_ ∧ _›).1, (‹_ ∧ _›).2, ‹_›, rfl⟩
    · exact .inr rfl

theorem toUInt16_ne_percent {b : ℕ} (hb : b < 128) (hunescaped : isUriUnescaped b = true) :
    b.toUInt16 ≠ unit '%' ∧ b.toUInt16 ≠ unit '/' := by
  revert hunescaped hb b
  decide

/-- The text of a name can be read byte by byte. -/
theorem segmentByte_append_inj {b c : ℕ} {s t : JsString} (hb : b < 256) (hc : c < 256)
    (h : segmentByte b ++ s = segmentByte c ++ t) : b = c ∧ s = t := by
  rcases segmentByte_cases (b := b) with ⟨hlt, hplain, -, heq⟩ | heq <;>
    rcases segmentByte_cases (b := c) with ⟨hlt', hplain', -, heq'⟩ | heq' <;>
    rw [heq, heq'] at h
  · obtain ⟨hunit, rest⟩ := List.cons.inj h
    exact ⟨toUInt16_inj hb hc hunit, rest⟩
  · exact absurd (List.cons.inj h).1 (toUInt16_ne_percent hlt hplain).1
  · exact absurd (List.cons.inj h).1.symm (toUInt16_ne_percent hlt' hplain').1
  · simp only [List.cons_append, List.nil_append, List.cons.injEq, true_and] at h
    obtain ⟨hhigh, hlow, hrest⟩ := h
    have hdiv := hexDigit_inj (by omega) (by omega) hhigh
    have hmod := hexDigit_inj (by omega) (by omega) hlow
    exact ⟨by omega, hrest⟩

theorem segmentByte_ne_nil (b : ℕ) : segmentByte b ≠ [] := by
  rcases segmentByte_cases (b := b) with ⟨-, -, -, heq⟩ | heq <;> simp [heq]

theorem flatMap_segmentByte_inj {a b : List ℕ} (ha : ∀ x ∈ a, x < 256) (hb : ∀ x ∈ b, x < 256)
    (h : a.flatMap segmentByte = b.flatMap segmentByte) : a = b := by
  induction a generalizing b with
  | nil =>
      cases b with
      | nil => rfl
      | cons y b =>
          rw [List.flatMap_nil, List.flatMap_cons] at h
          exact absurd (List.append_eq_nil_iff.1 h.symm).1 (segmentByte_ne_nil y)
  | cons x a ih =>
      cases b with
      | nil =>
          rw [List.flatMap_nil, List.flatMap_cons] at h
          exact absurd (List.append_eq_nil_iff.1 h).1 (segmentByte_ne_nil x)
      | cons y b =>
          obtain ⟨hx, ha⟩ := List.forall_mem_cons.1 ha
          obtain ⟨hy, hrest⟩ := List.forall_mem_cons.1 hb
          rw [List.flatMap_cons, List.flatMap_cons] at h
          obtain ⟨rfl, htexts⟩ := segmentByte_append_inj hx hy h
          exact congrArg (x :: ·) (ih ha hrest htexts)

theorem encodePathSegment_spec {segment text : JsString}
    (h : encodePathSegment segment = some text) :
    WellFormed segment ∧ text = (encode segment).flatMap segmentByte := by
  have hw : WellFormed segment := by
    by_contra hw
    rw [encodePathSegment, encodeURIComponent, if_neg hw] at h
    cases h
  rw [encodePathSegment_eq hw] at h
  exact ⟨hw, (Option.some.inj h).symm⟩

/-- **Names have different texts.** -/
theorem encodePathSegment_inj {a b text : JsString} (ha : encodePathSegment a = some text)
    (hb : encodePathSegment b = some text) : a = b := by
  obtain ⟨hwa, rfl⟩ := encodePathSegment_spec ha
  obtain ⟨hwb, hbytes⟩ := encodePathSegment_spec hb
  exact encode_injOn hwa hwb (flatMap_segmentByte_inj (encode_lt a) (encode_lt b) hbytes)

/-- The text of a name stays within its segment, -/
theorem slash_notMem_encodePathSegment {segment text : JsString}
    (h : encodePathSegment segment = some text) : unit '/' ∉ text := by
  obtain ⟨-, rfl⟩ := encodePathSegment_spec h
  intro hmem
  obtain ⟨b, hb, hslash⟩ := List.mem_flatMap.1 hmem
  have hlt := encode_lt segment b hb
  rcases segmentByte_cases (b := b) with ⟨hlt, hplain, -, heq⟩ | heq
  · rw [heq, List.mem_singleton] at hslash
    exact (toUInt16_ne_percent hlt hplain).2 hslash.symm
  · rw [heq] at hslash
    simp only [List.mem_cons, List.not_mem_nil, or_false] at hslash
    rcases hslash with hslash | hslash | hslash
    · exact absurd hslash (by decide)
    · exact (hexDigit_ne (by omega)).2 hslash.symm
    · exact (hexDigit_ne (by omega)).2 hslash.symm

/-- and only the empty name has none. -/
theorem encodePathSegment_ne_nil {segment text : JsString} (hne : segment ≠ [])
    (h : encodePathSegment segment = some text) : text ≠ [] := by
  obtain ⟨-, rfl⟩ := encodePathSegment_spec h
  intro hnil
  have hbytes : encode segment = [] := by
    cases hcases : encode segment with
    | nil => rfl
    | cons b bytes =>
        rw [hcases, List.flatMap_cons] at hnil
        exact absurd (List.append_eq_nil_iff.1 hnil).1 (segmentByte_ne_nil b)
  exact hne (encode_eq_nil hbytes)

/-! ## Scopes -/

/-- `instance` is a keyword here. -/
structure DatabaseKey where
  project : JsString
  instanceName : JsString
  database : JsString
  deriving DecidableEq

/-- What a drop is of. -/
inductive Scope
  | database (key : DatabaseKey)
  | instanceOf (project instanceName : JsString)
  deriving DecidableEq

namespace Scope

def names : Scope → List JsString
  | .database key => [key.project, key.instanceName, key.database]
  | .instanceOf project instanceName => [project, instanceName]

/-- `names.map(encodePathSegment)`. -/
def segments (scope : Scope) : Option (List JsString) := scope.names.mapM encodePathSegment

/-- `buildDatabaseKey(key)` and `buildInstanceId(key)`. -/
def id (scope : Scope) : Option JsString := scope.segments.map (join (js "/"))

/-- No name is empty. -/
def Named (scope : Scope) : Prop := ∀ name ∈ scope.names, name ≠ []

instance (scope : Scope) : Decidable scope.Named :=
  inferInstanceAs (Decidable (∀ name ∈ scope.names, name ≠ []))

end Scope

variable {scope other : Scope} {key : DatabaseKey} {text : JsString}

theorem exists_of_mapM_cons {name : JsString} {names texts : List JsString}
    (h : (name :: names).mapM encodePathSegment = some texts) :
    ∃ text rest, texts = text :: rest ∧ encodePathSegment name = some text ∧
      names.mapM encodePathSegment = some rest := by
  rw [List.mapM_cons] at h
  obtain ⟨text, htext, h⟩ := Option.bind_eq_some_iff.1 h
  obtain ⟨rest, hrest, h⟩ := Option.bind_eq_some_iff.1 h
  exact ⟨text, rest, (Option.some.inj h).symm, htext, hrest⟩

theorem forall_mem_mapM {names texts : List JsString} {P : JsString → Prop}
    (h : names.mapM encodePathSegment = some texts)
    (hP : ∀ name ∈ names, ∀ text, encodePathSegment name = some text → P text) :
    ∀ text ∈ texts, P text := by
  induction names generalizing texts with
  | nil =>
      obtain rfl : [] = texts := Option.some.inj h
      exact nofun
  | cons name names ih =>
      obtain ⟨text, rest, rfl, htext, hrest⟩ := exists_of_mapM_cons h
      obtain ⟨hname, hnames⟩ := List.forall_mem_cons.1 hP
      exact List.forall_mem_cons.2 ⟨hname text htext, ih hrest hnames⟩

/-- Names whose texts begin others' texts begin those names. -/
theorem prefix_of_mapM {a b s t : List JsString} (ha : a.mapM encodePathSegment = some s)
    (hb : b.mapM encodePathSegment = some t) (h : s <+: t) : a <+: b := by
  induction a generalizing b s t with
  | nil => exact List.nil_prefix
  | cons x a ih =>
      obtain ⟨text, rest, rfl, htext, hrest⟩ := exists_of_mapM_cons ha
      cases b with
      | nil =>
          obtain rfl : [] = t := Option.some.inj hb
          exact absurd h.length_le (by simp)
      | cons y b =>
          obtain ⟨text', rest', rfl, htext', hrest'⟩ := exists_of_mapM_cons hb
          obtain ⟨rfl, hback⟩ := List.cons_prefix_cons.1 h
          rw [encodePathSegment_inj htext htext']
          exact List.cons_prefix_cons.2 ⟨rfl, ih hrest hrest' hback⟩

theorem Scope.names_ne_nil (scope : Scope) : scope.names ≠ [] := by
  cases scope <;> exact List.cons_ne_nil _ _

theorem Scope.names_inj (h : scope.names = other.names) : scope = other := by
  cases scope with
  | database key =>
      cases other with
      | database key' =>
          obtain ⟨p, i, d⟩ := key
          obtain ⟨p', i', d'⟩ := key'
          simp only [names, List.cons.injEq, and_true] at h
          obtain ⟨rfl, rfl, rfl⟩ := h
          rfl
      | instanceOf => exact absurd (congrArg List.length h) (by simp [names])
  | instanceOf =>
      cases other with
      | database => exact absurd (congrArg List.length h) (by simp [names])
      | instanceOf =>
          simp only [names, List.cons.injEq, and_true] at h
          obtain ⟨rfl, rfl⟩ := h
          rfl

/-- **Databases and instances have different texts**, also a database and an instance. -/
theorem Scope.id_inj (h : scope.id = some text) (h' : other.id = some text) : scope = other := by
  obtain ⟨s, hs, rfl⟩ := Option.map_eq_some_iff.1 h
  obtain ⟨t, ht, heq⟩ := Option.map_eq_some_iff.1 h'
  have hsplit : ∀ {scope : Scope} {s : List JsString}, scope.segments = some s →
      (join (js "/") s).splitOn (unit '/') = s := by
    intro scope s hs
    have hslash := forall_mem_mapM hs fun _ _ _ => slash_notMem_encodePathSegment
    refine List.splitOn_intercalate (unit '/') hslash ?_
    rintro rfl
    obtain ⟨name, names, hnames⟩ := List.exists_cons_of_ne_nil scope.names_ne_nil
    rw [Scope.segments, hnames] at hs
    obtain ⟨_, _, hnil, -⟩ := exists_of_mapM_cons hs
    cases hnil
  have hst : s = t := by
    rw [← hsplit hs, ← hsplit ht, heq]
  subst hst
  have hforth := prefix_of_mapM hs ht List.prefix_rfl
  have hback := prefix_of_mapM ht hs List.prefix_rfl
  exact Scope.names_inj (hforth.eq_of_length (Nat.le_antisymm hforth.length_le hback.length_le))

end Kinglet.Postgres
