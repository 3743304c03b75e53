import Kinglet.Postgres.ExtendedProtocol

/-!
# What renaming does to a message

The frames that name statements and portals are read as messages: the bytes before the names, the
names, and the bytes after them. Renaming a frame renames its message and nothing else, and the length
field goes along. Where a frame cannot be read as such a message, since it has another type or ends
within its names, it stays as it is.
-/

namespace Kinglet.Postgres

open Js

/-! ## Messages -/

/-- The first C strings of the bytes, and the bytes after them. -/
def cStrings : ℕ → List ℕ → Option (List (List ℕ) × List ℕ)
  | 0, bytes => some ([], bytes)
  | count + 1, bytes =>
      match bytes.dropWhile (· ≠ 0) with
      | [] => none
      | _ :: rest =>
          (cStrings count rest).map fun (names, rest) => (bytes.takeWhile (· ≠ 0) :: names, rest)

/-- A message that names statements or portals; `kind` is the byte of Describe and Close that says
which of the two. -/
structure NamedMessage where
  tag : ℕ
  kind : List ℕ
  names : List (List ℕ)
  rest : List ℕ
  deriving DecidableEq

/-- The message of a frame, whatever its length field says. -/
def parseNamedMessage (frame : List ℕ) : Option NamedMessage :=
  match nameBearingFrames.lookup (frame.headD 0) with
  | none => none
  | some layout =>
      (cStrings layout.nameCount (frame.drop (5 + layout.skipBytes))).map fun (names, rest) =>
        ⟨frame.headD 0, (frame.drop 5).take layout.skipBytes, names, rest⟩

/-- A name with the prefix; the empty name stays empty. -/
def renamed (namespaceBytes name : List ℕ) : List ℕ :=
  if name = [] then [] else namespaceBytes ++ name

def NamedMessage.renamed (namespaceBytes : List ℕ) (message : NamedMessage) : NamedMessage :=
  { message with names := message.names.map (Postgres.renamed namespaceBytes) }

/-- The length field of a frame says how many bytes there are without the tag. -/
def RightLength (frame : List ℕ) : Prop := (frame.drop 1).take 4 = int32Bytes (frame.length - 1)

instance (frame : List ℕ) : Decidable (RightLength frame) := inferInstanceAs (Decidable (_ = _))

/-! ## C strings -/

theorem zero_not_mem_takeWhile (bytes : List ℕ) : 0 ∉ bytes.takeWhile (· ≠ 0) := by
  intro h
  simpa using List.mem_takeWhile_imp h

theorem cStrings_cons {name : List ℕ} (h : 0 ∉ name) (count : ℕ) (rest : List ℕ) :
    cStrings (count + 1) (name ++ 0 :: rest) =
      (cStrings count rest).map fun (names, rest) => (name :: names, rest) := by
  have hpos : ∀ b ∈ name, decide (b ≠ 0) = true := by
    intro b hb
    exact decide_eq_true fun hzero => h (hzero ▸ hb)
  have hdrop : (name ++ 0 :: rest).dropWhile (· ≠ 0) = 0 :: rest := by
    rw [List.dropWhile_append_of_pos hpos, List.dropWhile_cons_of_neg (by decide)]
  have htake : (name ++ 0 :: rest).takeWhile (· ≠ 0) = name := by
    rw [List.takeWhile_append_of_pos hpos, List.takeWhile_cons_of_neg (by decide), List.append_nil]
  rw [cStrings, hdrop, htake]

theorem cStrings_flatMap (names : List (List ℕ)) (h : ∀ name ∈ names, 0 ∉ name) (rest : List ℕ) :
    cStrings names.length (names.flatMap (· ++ [0]) ++ rest) = some (names, rest) := by
  induction names with
  | nil => rfl
  | cons name names ih =>
    obtain ⟨hname, hnames⟩ := List.forall_mem_cons.1 h
    rw [List.flatMap_cons, List.append_assoc, List.append_assoc, List.length_cons,
      List.singleton_append, cStrings_cons hname, ih hnames]
    rfl

/-- The strings read are those written, each with its zero. -/
theorem eq_of_cStrings {count : ℕ} {bytes rest : List ℕ} {names : List (List ℕ)}
    (h : cStrings count bytes = some (names, rest)) :
    bytes = names.flatMap (· ++ [0]) ++ rest ∧ names.length = count ∧ ∀ name ∈ names, 0 ∉ name := by
  induction count generalizing bytes names with
  | zero =>
    cases h
    exact ⟨rfl, rfl, fun name hname => absurd hname List.not_mem_nil⟩
  | succ count ih =>
    have hsplit := List.takeWhile_append_dropWhile (p := (· ≠ 0)) (l := bytes)
    rw [cStrings] at h
    cases hdrop : bytes.dropWhile (· ≠ 0) with
    | nil => rw [hdrop] at h; cases h
    | cons b more =>
      have hb : b = 0 := by
        have hhead := List.head?_dropWhile_not (· ≠ 0) bytes
        rw [hdrop] at hhead
        simpa using hhead
      subst hb
      rw [hdrop] at h hsplit
      obtain ⟨⟨names', rest'⟩, hmore, heq⟩ := Option.map_eq_some_iff.1 h
      cases heq
      obtain ⟨hbytes, hlength, hnames⟩ := ih hmore
      refine ⟨?_, congrArg (· + 1) hlength, ?_⟩
      · rw [List.flatMap_cons, List.append_assoc, List.append_assoc, ← hbytes]
        exact hsplit.symm
      · exact List.forall_mem_cons.2 ⟨zero_not_mem_takeWhile bytes, hnames⟩

/-! ## Names by their positions -/

theorem findIdx?_eq (bytes : List ℕ) :
    bytes.findIdx? (· = 0) =
      if bytes.dropWhile (· ≠ 0) = [] then none else some (bytes.takeWhile (· ≠ 0)).length := by
  induction bytes with
  | nil => rfl
  | cons b bytes ih =>
    by_cases hb : b = 0
    · rw [List.findIdx?_cons, if_pos (decide_eq_true hb), List.dropWhile_cons_of_neg (by simpa),
        List.takeWhile_cons_of_neg (by simpa), if_neg (List.cons_ne_nil _ _)]
      rfl
    · rw [List.findIdx?_cons, if_neg (by simpa), List.dropWhile_cons_of_pos (by simpa),
        List.takeWhile_cons_of_pos (by simpa), ih]
      split_ifs
      · rfl
      · rfl

/-- The positions found are those of the strings, and inserting the prefix there renames them. -/
theorem frameNames_spec (frame namespaceBytes : List ℕ) (count offset : ℕ) :
    (frameNames frame count offset = none ∧ cStrings count (frame.drop offset) = none) ∨
      ∃ positions names rest, frameNames frame count offset = some positions ∧
        cStrings count (frame.drop offset) = some (names, rest) ∧
        (positions.all fun name => name.1 = name.2) = names.all (fun name => name = []) ∧
        ∀ source ≤ offset, insertNamespace frame namespaceBytes source positions =
          (frame.drop source).take (offset - source) ++
            ((names.map (renamed namespaceBytes)).flatMap (· ++ [0]) ++ rest) := by
  induction count generalizing offset with
  | zero =>
    refine .inr ⟨[], [], frame.drop offset, rfl, rfl, rfl, fun source hle => ?_⟩
    have hdrop := List.take_append_drop (offset - source) (frame.drop source)
    rw [List.drop_drop, Nat.add_sub_cancel' hle] at hdrop
    exact hdrop.symm
  | succ count ih =>
    have hsplit := List.takeWhile_append_dropWhile (p := (· ≠ 0)) (l := frame.drop offset)
    have hindex := findIdx?_eq (frame.drop offset)
    unfold frameNames indexOfZero
    rw [cStrings, hindex]
    cases hdrop : (frame.drop offset).dropWhile (· ≠ 0) with
    | nil => exact .inl ⟨rfl, rfl⟩
    | cons b more =>
      have hb : b = 0 := by
        have hhead := List.head?_dropWhile_not (· ≠ 0) (frame.drop offset)
        rw [hdrop] at hhead
        simpa using hhead
      subst hb
      rw [hdrop] at hsplit
      generalize (frame.drop offset).takeWhile (· ≠ 0) = name at hsplit ⊢
      have hmore : frame.drop (offset + name.length + 1) = more := by
        rw [Nat.add_assoc, ← List.drop_drop, ← hsplit, ← List.drop_drop, List.drop_left]
        rfl
      rw [if_neg (List.cons_ne_nil _ _)]
      dsimp only [Option.map_some, Option.bind_eq_bind, Option.bind_some]
      rcases ih (offset + name.length + 1) with ⟨hnone, hstrings⟩ |
        ⟨positions, names, rest, hsome, hstrings, hempty, hinsert⟩
      · rw [hmore] at hstrings
        rw [hnone, hstrings]
        exact .inl ⟨rfl, rfl⟩
      · rw [hmore] at hstrings
        rw [hsome, hstrings]
        refine .inr ⟨_, _, _, rfl, rfl, ?_, fun source hle => ?_⟩
        · rw [List.all_cons, List.all_cons, hempty]
          congr 1
          exact decide_eq_decide.2 (by rw [← List.length_eq_zero_iff]; omega)
        · have hname : (frame.drop offset).take (offset + name.length + 1 - offset) =
              name ++ [0] := by
            rw [Nat.add_assoc, Nat.add_sub_cancel_left, ← hsplit, List.take_append,
              Nat.add_sub_cancel_left, List.take_of_length_le (Nat.le_add_right _ 1)]
            rfl
          have hrenamed : (if offset < offset + name.length then namespaceBytes else []) ++ name =
              renamed namespaceBytes name := by
            unfold renamed
            cases name with
            | nil => rw [if_neg (by simp), if_pos rfl, List.append_nil]
            | cons b name => rw [if_pos (by simp), if_neg (List.cons_ne_nil _ _)]
          rw [insertNamespace, hinsert offset (by omega), hname, List.map_cons,
            List.flatMap_cons, ← hrenamed]
          simp only [List.append_assoc]

/-! ## Frames -/

theorem length_int32Bytes (n : ℕ) : (int32Bytes n).length = 4 := rfl

theorem nameCount_pos {tag : ℕ} {layout : NameLayout}
    (h : nameBearingFrames.lookup tag = some layout) : 0 < layout.nameCount := by
  have hmem : (tag, layout) ∈ nameBearingFrames := by
    obtain ⟨before, after, heq, -⟩ := List.lookup_eq_some_iff.1 h
    rw [heq]
    exact List.mem_append_right _ List.mem_cons_self
  have hall : ∀ row ∈ nameBearingFrames, 0 < row.2.nameCount := by decide
  exact hall _ hmem

/-- A frame that is read as a message, by its parts. -/
theorem eq_of_parse {frame : List ℕ} {message : NamedMessage}
    (h : parseNamedMessage frame = some message) :
    ∃ layout, nameBearingFrames.lookup message.tag = some layout ∧
      message.kind.length = layout.skipBytes ∧ message.names.length = layout.nameCount ∧
      (∀ name ∈ message.names, 0 ∉ name) ∧ ∃ lengthField, lengthField.length = 4 ∧
        frame = message.tag :: (lengthField ++ (message.kind ++
          (message.names.flatMap (· ++ [0]) ++ message.rest))) := by
  unfold parseNamedMessage at h
  cases hlayout : nameBearingFrames.lookup (frame.headD 0) with
  | none => rw [hlayout] at h; cases h
  | some layout =>
    rw [hlayout] at h
    obtain ⟨⟨names, rest⟩, hstrings, rfl⟩ := Option.map_eq_some_iff.1 h
    obtain ⟨hbytes, hcount, hnames⟩ := eq_of_cStrings hstrings
    have hlong : 5 + layout.skipBytes < frame.length := by
      have hpos := nameCount_pos hlayout
      have hne : frame.drop (5 + layout.skipBytes) ≠ [] := by
        rw [hbytes]
        cases names with
        | nil => rw [← hcount] at hpos; exact absurd hpos (by decide)
        | cons name names => simp
      by_contra hnot
      exact hne (List.drop_eq_nil_of_le (not_lt.1 hnot))
    refine ⟨layout, hlayout, ?_, hcount, hnames, (frame.drop 1).take 4, ?_, ?_⟩
    · rw [List.length_take, List.length_drop]
      omega
    · rw [List.length_take, List.length_drop]
      omega
    · cases frame with
      | nil => exact absurd hlong (Nat.not_lt_zero _)
      | cons tag body =>
        dsimp only
        rw [← hbytes, ← List.drop_drop, List.take_append_drop]
        exact congrArg (tag :: ·) (List.take_append_drop 4 body).symm

/-- The message of a frame that is put together from parts. -/
theorem parse_of_parts {m : NamedMessage} {layout : NameLayout} {lengthField : List ℕ}
    (hlayout : nameBearingFrames.lookup m.tag = some layout)
    (hkind : m.kind.length = layout.skipBytes)
    (hcount : m.names.length = layout.nameCount) (hnames : ∀ name ∈ m.names, 0 ∉ name)
    (hlength : lengthField.length = 4) :
    parseNamedMessage (m.tag :: (lengthField ++ (m.kind ++
      (m.names.flatMap (· ++ [0]) ++ m.rest)))) = some m := by
  have hbody : (m.tag :: (lengthField ++ (m.kind ++
      (m.names.flatMap (· ++ [0]) ++ m.rest)))).drop 5 =
        m.kind ++ (m.names.flatMap (· ++ [0]) ++ m.rest) := by
    rw [List.drop_succ_cons, ← hlength, List.drop_left]
  unfold parseNamedMessage
  rw [List.headD_cons, hlayout]
  dsimp only
  rw [← List.drop_drop, hbody, ← hkind, List.drop_left, List.take_left, ← hcount,
    cStrings_flatMap _ hnames]
  rfl

/-- A frame that does not hold a message stays as it is. -/
theorem namespaceFrameNames_of_none {frame : List ℕ} (h : parseNamedMessage frame = none)
    (connectionNamespace : JsString) : namespaceFrameNames frame connectionNamespace = frame := by
  unfold parseNamedMessage at h
  unfold namespaceFrameNames
  cases hlayout : nameBearingFrames.lookup (frame.headD 0) with
  | none => rfl
  | some layout =>
    rw [hlayout, Option.map_eq_none_iff] at h
    rcases frameNames_spec frame (encode connectionNamespace) layout.nameCount
        (5 + layout.skipBytes) with ⟨hnone, -⟩ | ⟨positions, names, rest, -, hsome, -⟩
    · dsimp only
      rw [hnone]
    · exact absurd (h.symm.trans hsome) nofun

theorem map_renamed_eq {namespaceBytes : List ℕ} {names : List (List ℕ)}
    (h : (names.all fun name => name = []) = true) : names.map (renamed namespaceBytes) = names := by
  induction names with
  | nil => rfl
  | cons name names ih =>
    rw [List.all_cons, Bool.and_eq_true, decide_eq_true_eq] at h
    obtain ⟨rfl, hnames⟩ := h
    rw [List.map_cons, ih hnames]
    rfl

/-- **What renaming makes of a message**: nothing when it has no name, else the frame of the renamed
message. -/
theorem namespaceFrameNames_of_some {frame : List ℕ} {message : NamedMessage}
    (h : parseNamedMessage frame = some message) (namespaceBytes : List ℕ)
    {connectionNamespace : JsString} (hbytes : encode connectionNamespace = namespaceBytes) :
    namespaceFrameNames frame connectionNamespace = frame ∧
        message.renamed namespaceBytes = message ∨
      ∃ body, body = message.kind ++
          ((message.renamed namespaceBytes).names.flatMap (· ++ [0]) ++ message.rest) ∧
        namespaceFrameNames frame connectionNamespace =
          message.tag :: (int32Bytes (4 + body.length) ++ body) := by
  obtain ⟨layout, hlayout, hkind, hcount, hnames, lengthField, hlength, hframe⟩ := eq_of_parse h
  have hhead : frame.headD 0 = message.tag := by rw [hframe]; rfl
  have hdrop : frame.drop (5 + layout.skipBytes) =
      message.names.flatMap (· ++ [0]) ++ message.rest := by
    rw [hframe, ← List.drop_drop, List.drop_succ_cons, ← hlength, List.drop_left, ← hkind,
      List.drop_left]
  have htake : frame.take (5 + layout.skipBytes) =
      message.tag :: (lengthField ++ message.kind) := by
    have hsplit : frame = (message.tag :: (lengthField ++ message.kind)) ++
        (message.names.flatMap (· ++ [0]) ++ message.rest) := by
      rw [hframe]
      simp only [List.cons_append, List.append_assoc]
    rw [hsplit]
    exact List.take_left' (by simp only [List.length_cons, List.length_append]; omega)
  unfold namespaceFrameNames
  rw [hhead, hlayout, hbytes]
  dsimp only
  rcases frameNames_spec frame namespaceBytes layout.nameCount (5 + layout.skipBytes) with
    ⟨-, hnone⟩ | ⟨positions, names, rest, hsome, hstrings, hempty, hinsert⟩
  · rw [hdrop, ← hcount, cStrings_flatMap _ hnames] at hnone
    cases hnone
  · rw [hdrop, ← hcount, cStrings_flatMap _ hnames] at hstrings
    obtain ⟨rfl, rfl⟩ := Prod.mk.inj (Option.some.inj hstrings)
    rw [hsome]
    dsimp only
    rw [hempty]
    split_ifs with hall
    · refine .inl ⟨rfl, ?_⟩
      unfold NamedMessage.renamed
      rw [map_renamed_eq hall]
    · refine .inr ⟨_, rfl, ?_⟩
      rw [hinsert 0 (Nat.zero_le _), List.drop_zero, Nat.sub_zero, htake]
      unfold setInt32
      simp only [List.cons_append, List.append_assoc, List.length_cons, List.length_append, hlength,
        Nat.add_sub_cancel]
      rw [List.take_succ_cons, List.take_zero, List.drop_succ_cons, List.drop_left' hlength]
      rfl

theorem rightLength_of_body (tag : ℕ) (body : List ℕ) :
    RightLength (tag :: (int32Bytes (4 + body.length) ++ body)) := by
  unfold RightLength
  rw [List.drop_succ_cons, List.drop_zero, List.length_cons, List.length_append, length_int32Bytes,
    Nat.add_sub_cancel]
  exact List.take_left' (length_int32Bytes _)

theorem zero_not_mem_renamed {namespaceBytes name : List ℕ} (hzero : 0 ∉ namespaceBytes)
    (hname : 0 ∉ name) : 0 ∉ renamed namespaceBytes name := by
  unfold renamed
  split
  · exact List.not_mem_nil
  · rw [List.mem_append]
    exact not_or.2 ⟨hzero, hname⟩

/-- The renamed frame is read as the renamed message. -/
theorem parse_namespaceFrameNames {frame : List ℕ} {message : NamedMessage}
    {connectionNamespace : JsString} (hzero : 0 ∉ encode connectionNamespace)
    (h : parseNamedMessage frame = some message) :
    parseNamedMessage (namespaceFrameNames frame connectionNamespace) =
      some (message.renamed (encode connectionNamespace)) := by
  obtain ⟨layout, hlayout, hkind, hcount, hnames, -⟩ := eq_of_parse h
  rcases namespaceFrameNames_of_some h _ rfl with ⟨hsame, hmessage⟩ | ⟨body, hbody, hframe⟩
  · rw [hsame, hmessage]
    exact h
  · have hrenamed : ∀ name ∈ (message.renamed (encode connectionNamespace)).names, 0 ∉ name := by
      intro name hname
      obtain ⟨old, hold, rfl⟩ := List.mem_map.1 hname
      exact zero_not_mem_renamed hzero (hnames old hold)
    have hcount' := (List.length_map (renamed (encode connectionNamespace))).trans hcount
    rw [hframe, hbody]
    exact parse_of_parts (m := message.renamed _) hlayout hkind hcount' hrenamed (length_int32Bytes _)

/-- **Renaming a frame renames its message** and keeps the length field right; a frame without a
message stays as it is. -/
theorem namespaceFrameNames_spec (frame : List ℕ) {connectionNamespace : JsString}
    (hzero : 0 ∉ encode connectionNamespace) :
    (parseNamedMessage frame = none → namespaceFrameNames frame connectionNamespace = frame) ∧
      ∀ message, parseNamedMessage frame = some message →
        parseNamedMessage (namespaceFrameNames frame connectionNamespace) =
            some (message.renamed (encode connectionNamespace)) ∧
          (RightLength frame → RightLength (namespaceFrameNames frame connectionNamespace)) := by
  refine ⟨fun h => namespaceFrameNames_of_none h _, fun message h => ?_⟩
  refine ⟨parse_namespaceFrameNames hzero h, fun hright => ?_⟩
  rcases namespaceFrameNames_of_some h _ rfl with ⟨hsame, -⟩ | ⟨body, -, hframe⟩
  · rw [hsame]
    exact hright
  · rw [hframe]
    exact rightLength_of_body _ _

/-- A Bind of the unnamed portal and the statement `s`. -/
theorem namespaceFrameNames_spec_bind :
    parseNamedMessage [0x42, 0, 0, 0, 8, 0, 115, 0, 9] =
        some ⟨0x42, [], [[], [115]], [9]⟩ ∧
      parseNamedMessage (namespaceFrameNames [0x42, 0, 0, 0, 8, 0, 115, 0, 9] "c/") =
        some ⟨0x42, [], [[], [99, 47, 115]], [9]⟩ ∧
      RightLength (namespaceFrameNames [0x42, 0, 0, 0, 8, 0, 115, 0, 9] "c/") := by
  have hmessage : parseNamedMessage [0x42, 0, 0, 0, 8, 0, 115, 0, 9] =
      some ⟨0x42, [], [[], [115]], [9]⟩ := by decide
  have hzero : 0 ∉ encode (js "c/") := by decide
  obtain ⟨hparse, hlength⟩ := (namespaceFrameNames_spec _ hzero).2 _ hmessage
  exact ⟨hmessage, hparse.trans (by decide), hlength (by decide)⟩

end Kinglet.Postgres
