import Kinglet.Js.Path
import Kinglet.Postgres.DataDirectory

/-!
# The paths of data directories

The data root lies beside the SQLite file, an instance two segments below it and a database one further.
The segments are the encoded names, which contain neither a slash nor a dot and of names that are not
empty are not empty, so each is entered as it is. What is checked about containment then never refuses a directory.
-/

namespace Kinglet.Postgres

open Js

/-- `PostgresDataPlaneDirectoryName`. -/
inductive DataDirectoryName
  | cloudsql
  | alloydb
  deriving DecidableEq

def DataDirectoryName.text : DataDirectoryName → JsString
  | .cloudsql => js "cloudsql"
  | .alloydb => js "alloydb"

/-- The options of the manager that its paths depend on. -/
structure PathOptions where
  sqlitePath : JsString
  dataDirectoryName : DataDirectoryName

inductive PathError
  | uriError
  | outside (resolvedRoot : JsString)
  deriving DecidableEq

/-- The message of the check; a `URIError` has its own. -/
def PathError.message : PathError → JsString
  | .uriError => js "URI error"
  | .outside resolvedRoot => js "Refusing to use a data directory outside " ++ resolvedRoot

/-- The text of a database, as a key of the maps. -/
def buildDatabaseKey (key : DatabaseKey) : Option JsString := (Scope.database key).id

/-- `encodePathSegment`, with what it throws. -/
def encodedSegment (segment : JsString) : Except PathError JsString :=
  match encodePathSegment segment with
  | none => .error .uriError
  | some text => .ok text

def dataRoot (options : PathOptions) : JsString :=
  joinPaths [dirname options.sqlitePath, options.dataDirectoryName.text]

def requireContainedIn (cwd root directory : JsString) : Except PathError JsString :=
  let resolvedRoot := resolve cwd [root]
  if directory ≠ resolvedRoot ∧ startsWith directory (resolvedRoot ++ js "/") = false then
    .error (.outside resolvedRoot)
  else .ok directory

/-- `cwd` is the working directory, without its first slash. -/
def resolveInstanceDirectory (options : PathOptions) (cwd project instanceName : JsString) :
    Except PathError JsString := do
  let root := dataRoot options
  let project ← encodedSegment project
  let instanceName ← encodedSegment instanceName
  requireContainedIn cwd root (resolve cwd [root, project, instanceName])

def resolveDataDirectory (options : PathOptions) (cwd : JsString) (key : DatabaseKey) :
    Except PathError JsString := do
  let root := dataRoot options
  let instanceDirectory ← resolveInstanceDirectory options cwd key.project key.instanceName
  let database ← encodedSegment key.database
  requireContainedIn cwd root (resolve cwd [instanceDirectory, database])

/-- The first path is absolute and leads to a place below that of the second. -/
def StrictlyWithin (inner outer : JsString) : Prop :=
  isAbsolute inner = true ∧ isAbsolute outer = true ∧
    ∃ below, below ≠ [] ∧ enter [] inner = enter [] outer ++ below

/-! ## Segments -/

theorem dot_notMem_encodePathSegment {segment text : JsString}
    (h : encodePathSegment segment = some text) : unit '.' ∉ text := by
  obtain ⟨-, rfl⟩ := encodePathSegment_spec h
  intro hmem
  obtain ⟨b, hb, hdot⟩ := List.mem_flatMap.1 hmem
  have hlt := encode_lt segment b hb
  rcases segmentByte_cases (b := b) with ⟨-, -, hne, heq⟩ | heq
  · rw [heq, List.mem_singleton] at hdot
    exact toUInt16_ne hlt (u := unit '.') hne hdot.symm
  · rw [heq] at hdot
    simp only [List.mem_cons, List.not_mem_nil, or_false] at hdot
    rcases hdot with hdot | hdot | hdot
    · exact absurd hdot (by decide)
    · exact (hexDigit_ne (by omega)).1 hdot.symm
    · exact (hexDigit_ne (by omega)).1 hdot.symm

/-- The text of a name that is not empty is entered as it is. -/
theorem plain_encodePathSegment {segment text : JsString} (hne : segment ≠ [])
    (h : encodePathSegment segment = some text) : Plain text := by
  have hdot := dot_notMem_encodePathSegment h
  refine ⟨encodePathSegment_ne_nil hne h, ?_, ?_, slash_notMem_encodePathSegment h⟩
  · intro heq
    exact hdot (heq ▸ List.mem_cons_self)
  · intro heq
    exact hdot (heq ▸ List.mem_cons_self)

theorem plain_dataDirectoryName (name : DataDirectoryName) : Plain name.text := by
  cases name <;> exact ⟨by decide, by decide, by decide, by decide⟩

/-! ## Directories -/

/-- Where the data root is. -/
def rootPlace (options : PathOptions) (cwd : JsString) : List JsString :=
  enter (enter [] (unit '/' :: cwd)) (dataRoot options)

variable {options : PathOptions} {cwd : JsString} {texts : List JsString}

theorem rootPlace_ne_nil : rootPlace options cwd ≠ [] := by
  rw [rootPlace, dataRoot, enter_joinPaths _ (dirname_ne_nil _) (plain_dataDirectoryName _)]
  exact List.append_ne_nil_of_right_ne_nil _ (List.cons_ne_nil _ _)

theorem plain_of_mem_rootPlace : ∀ segment ∈ rootPlace options cwd, Plain segment := by
  refine plain_of_mem_enter (plain_of_mem_enter ?_)
  intro segment hmem
  exact absurd hmem List.not_mem_nil

/-- The path of a place below the data root. -/
def pathBelow (options : PathOptions) (cwd : JsString) (texts : List JsString) : JsString :=
  unit '/' :: join (js "/") (rootPlace options cwd ++ texts)

theorem plain_of_mem_below (h : ∀ text ∈ texts, Plain text) :
    ∀ segment ∈ rootPlace options cwd ++ texts, Plain segment := by
  intro segment hmem
  rcases List.mem_append.1 hmem with hmem | hmem
  · exact plain_of_mem_rootPlace segment hmem
  · exact h segment hmem

theorem enter_pathBelow (place : List JsString) (h : ∀ text ∈ texts, Plain text) :
    enter place (pathBelow options cwd texts) = rootPlace options cwd ++ texts :=
  enter_text place (plain_of_mem_below h)

theorem resolve_dataRoot (h : ∀ text ∈ texts, Plain text) :
    resolve cwd (dataRoot options :: texts) = pathBelow options cwd texts := by
  rw [resolve_eq, List.foldl_cons, foldl_enter_plain _ h]
  rfl

theorem resolve_pathBelow {text : JsString} (h : ∀ text ∈ texts, Plain text) (htext : Plain text) :
    resolve cwd [pathBelow options cwd texts, text] = pathBelow options cwd (texts ++ [text]) := by
  rw [resolve_eq, List.foldl_cons, enter_pathBelow _ h, List.foldl_cons, List.foldl_nil,
    enter_plain _ htext, pathBelow, List.append_assoc]

/-- No place below the data root is refused. -/
theorem requireContainedIn_pathBelow (hne : texts ≠ []) :
    requireContainedIn cwd (dataRoot options) (pathBelow options cwd texts) =
      .ok (pathBelow options cwd texts) := by
  have hroot : resolve cwd [dataRoot options] = unit '/' :: join (js "/") (rootPlace options cwd) := by
    rw [resolve_dataRoot fun text hmem => absurd hmem List.not_mem_nil, pathBelow, List.append_nil]
  have hstart : startsWith (pathBelow options cwd texts)
      (resolve cwd [dataRoot options] ++ js "/") = true := by
    rw [hroot, pathBelow, join_append rootPlace_ne_nil hne]
    refine List.isPrefixOf_iff_prefix.2 ⟨join (js "/") texts, ?_⟩
    rw [List.cons_append, List.cons_append, List.append_assoc]
    rfl
  unfold requireContainedIn
  dsimp only
  rw [if_neg fun hboth => absurd (hstart.symm.trans hboth.2) (by decide)]

theorem strictlyWithin_pathBelow (texts : List JsString) {more : List JsString}
    (h : ∀ text ∈ texts ++ more, Plain text) (hne : more ≠ []) :
    StrictlyWithin (pathBelow options cwd (texts ++ more)) (pathBelow options cwd texts) := by
  refine ⟨decide_eq_true rfl, decide_eq_true rfl, more, hne, ?_⟩
  rw [enter_pathBelow [] h, enter_pathBelow [] fun text hmem => h text (List.mem_append_left _ hmem),
    List.append_assoc]

/-- The directories of an instance and of a database, by the texts of their names. -/
theorem resolveInstanceDirectory_eq {project instanceName p i : JsString}
    (hp : encodePathSegment project = some p) (hi : encodePathSegment instanceName = some i)
    (hplain : ∀ text ∈ [p, i], Plain text) :
    resolveInstanceDirectory options cwd project instanceName = .ok (pathBelow options cwd [p, i]) := by
  unfold resolveInstanceDirectory encodedSegment
  rw [hp, hi]
  dsimp only [bind, Except.bind]
  rw [resolve_dataRoot hplain, requireContainedIn_pathBelow (List.cons_ne_nil _ _)]

theorem resolveDataDirectory_eq {key : DatabaseKey} {p i d : JsString}
    (hp : encodePathSegment key.project = some p) (hi : encodePathSegment key.instanceName = some i)
    (hd : encodePathSegment key.database = some d) (hplain : ∀ text ∈ [p, i] ++ [d], Plain text) :
    resolveDataDirectory options cwd key = .ok (pathBelow options cwd ([p, i] ++ [d])) := by
  have hfront : ∀ text ∈ [p, i], Plain text := fun text hmem => hplain text (List.mem_append_left _ hmem)
  unfold resolveDataDirectory
  rw [resolveInstanceDirectory_eq hp hi hfront]
  unfold encodedSegment
  rw [hd]
  dsimp only [bind, Except.bind]
  rw [resolve_pathBelow hfront (hplain d (List.mem_append_right _ (List.mem_singleton_self d))),
    requireContainedIn_pathBelow (List.append_ne_nil_of_left_ne_nil (List.cons_ne_nil _ _) _)]

/-- What can be encoded and is not empty has plain texts. -/
theorem exists_texts {key : DatabaseKey} (hnamed : (Scope.database key).Named)
    (hw : ∀ name ∈ (Scope.database key).names, WellFormed name) :
    ∃ p i d, encodePathSegment key.project = some p ∧ encodePathSegment key.instanceName = some i ∧
      encodePathSegment key.database = some d ∧ ∀ text ∈ [p, i] ++ [d], Plain text := by
  have htext : ∀ name ∈ (Scope.database key).names,
      ∃ text, encodePathSegment name = some text ∧ Plain text := fun name hmem =>
    ⟨_, encodePathSegment_eq (hw name hmem),
      plain_encodePathSegment (hnamed name hmem) (encodePathSegment_eq (hw name hmem))⟩
  simp only [Scope.names, List.forall_mem_cons] at htext
  obtain ⟨⟨p, hp, hplainp⟩, ⟨i, hi, hplaini⟩, ⟨d, hd, hplaind⟩, -⟩ := htext
  refine ⟨p, i, d, hp, hi, hd, ?_⟩
  simp only [List.cons_append, List.nil_append, List.forall_mem_cons]
  exact ⟨hplainp, hplaini, hplaind, fun text hmem => absurd hmem List.not_mem_nil⟩

/-- **Data directories**: that of a database lies within that of its instance, and this within the data
root; no other database has the same key or the same directory. -/
theorem dataDirectory_spec (options : PathOptions) (cwd : JsString) {key : DatabaseKey}
    (hnamed : (Scope.database key).Named)
    (hw : ∀ name ∈ (Scope.database key).names, WellFormed name) :
    ∃ id instanceDirectory directory, buildDatabaseKey key = some id ∧
      resolveInstanceDirectory options cwd key.project key.instanceName = .ok instanceDirectory ∧
      resolveDataDirectory options cwd key = .ok directory ∧
      StrictlyWithin directory instanceDirectory ∧
      StrictlyWithin instanceDirectory (resolve cwd [dataRoot options]) ∧
      ∀ other : DatabaseKey, (Scope.database other).Named →
        (∀ name ∈ (Scope.database other).names, WellFormed name) → other ≠ key →
          buildDatabaseKey other ≠ some id ∧ resolveDataDirectory options cwd other ≠ .ok directory := by
  obtain ⟨p, i, d, hp, hi, hd, hplain⟩ := exists_texts hnamed hw
  have hid : ∃ id, buildDatabaseKey key = some id := by
    refine ⟨join (js "/") [p, i, d], ?_⟩
    simp only [buildDatabaseKey, Scope.id, Scope.segments, Scope.names, List.mapM_cons, List.mapM_nil,
      hp, hi, hd]
    rfl
  obtain ⟨id, hid⟩ := hid
  have hfront : ∀ text ∈ [p, i], Plain text := fun text hmem => hplain text (List.mem_append_left _ hmem)
  have hroot : resolve cwd [dataRoot options] = pathBelow options cwd [] :=
    resolve_dataRoot fun text hmem => absurd hmem List.not_mem_nil
  refine ⟨id, _, _, hid, resolveInstanceDirectory_eq hp hi hfront,
    resolveDataDirectory_eq hp hi hd hplain, strictlyWithin_pathBelow _ hplain (List.cons_ne_nil _ _),
    hroot ▸ strictlyWithin_pathBelow [] hfront (List.cons_ne_nil _ _), ?_⟩
  intro other hnamed' hw' hne
  refine ⟨fun hsame => hne (Scope.database.inj (Scope.id_inj hsame hid)), fun hsame => hne ?_⟩
  obtain ⟨p', i', d', hp', hi', hd', hplain'⟩ := exists_texts hnamed' hw'
  rw [resolveDataDirectory_eq hp' hi' hd' hplain', Except.ok.injEq] at hsame
  have hplaces := congrArg (enter []) hsame
  rw [enter_pathBelow [] hplain', enter_pathBelow [] hplain] at hplaces
  have htexts := List.append_cancel_left hplaces
  simp only [List.cons_append, List.nil_append, List.cons.injEq, and_true] at htexts
  obtain ⟨rfl, rfl, rfl⟩ := htexts
  cases other
  cases key
  rw [DatabaseKey.mk.injEq]
  exact ⟨encodePathSegment_inj hp' hp, encodePathSegment_inj hi' hi, encodePathSegment_inj hd' hd⟩

/-- A project `..`, an instance with a slash and a database that starts with NUL. -/
theorem dataDirectory_spec_dots :
    ∃ instanceDirectory,
      resolveInstanceDirectory ⟨"data/kinglet.db", .cloudsql⟩ (js "home") (js "..") (js "a/b") =
          .ok instanceDirectory ∧
        StrictlyWithin (js "/home/data/cloudsql/%2E%2E/a%2Fb/%00%25") instanceDirectory := by
  have hdirectory : resolveDataDirectory ⟨"data/kinglet.db", .cloudsql⟩ (js "home")
      ⟨js "..", js "a/b", [0, 37]⟩ = .ok (js "/home/data/cloudsql/%2E%2E/a%2Fb/%00%25") := by
    rfl
  obtain ⟨id, instanceDirectory, directory, -, hinstance, hfound, hwithin, -⟩ :=
    @dataDirectory_spec ⟨"data/kinglet.db", .cloudsql⟩ (js "home") ⟨js "..", js "a/b", [0, 37]⟩
      (by decide) (by decide)
  rw [hdirectory, Except.ok.injEq] at hfound
  exact ⟨instanceDirectory, hinstance, hfound ▸ hwithin⟩

end Kinglet.Postgres
