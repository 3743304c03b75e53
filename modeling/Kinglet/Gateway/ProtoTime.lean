import Kinglet.Js.DateParse
import Kinglet.Js.Words

/-!
# Timestamps and durations of the gRPC handlers

Three handlers turn dates into protobuf Timestamps and back, and two of them turn durations such as
`3.5s` into protobuf Durations and back. Seconds travel as decimal text, as the gRPC server loads
64-bit numbers.

A number here is an exact integer or `NaN`, which is `none`: the numbers of the codecs are integers
far below `2^53`, where doubles are exact.
-/

namespace Kinglet.ProtoTime

open Kinglet.Js

/-! ## Numbers -/

/-- An integer number, or `NaN`. -/
abbrev Num := Option ℤ

/-- The text of a number. -/
def numText : Num → JsString
  | none => js "NaN"
  | some n => if n < 0 then 45 :: decimal n.natAbs else decimal n.toNat

/-- Whether a minus sign stands in front, and the text after the sign. -/
def signOf : JsString → Bool × JsString
  | 45 :: rest => (true, rest)
  | 43 :: rest => (false, rest)
  | rest => (false, rest)

/-- `Number.parseInt(text, 10)`. -/
def parseInteger (text : JsString) : Num :=
  let (negative, rest) := signOf (trimStart text)
  match rest.takeWhile isDigit with
  | [] => none
  | digits => some (if negative then -(digitsValue digits : ℤ) else digitsValue digits)

/-- The time value of `new Date(x)`. -/
def newDate (x : Num) : Num := x.filter fun ms => ms.natAbs ≤ 8640000000000000

/-- What turning a Timestamp into an ISO text gives; the text of an invalid date throws. -/
inductive IsoResult where
  | missing
  | text (iso : JsString)
  | rangeError
  deriving DecidableEq, Repr

/-- `new Date(x).toISOString()`. -/
def isoText (x : Num) : IsoResult :=
  match newDate x with
  | none => .rangeError
  | some time => .text (toISOString time)

theorem takeWhile_decimal (n : ℕ) : (decimal n).takeWhile isDigit = decimal n := by
  rw [List.takeWhile_eq_self_iff]
  intro u hu
  exact isDigit_of_mem_decimal hu

theorem trimStart_of_head (u : UInt16) (text : JsString) (hu : isSpace u = false) :
    trimStart (u :: text) = u :: text := by
  rw [trimStart, List.dropWhile_cons_of_neg (by simp [hu])]

theorem parseInteger_of_signOf {text : JsString} {negative : Bool} {n : ℕ}
    (h : signOf (trimStart text) = (negative, decimal n)) :
    parseInteger text = some (if negative then -(n : ℤ) else n) := by
  unfold parseInteger
  rw [h]
  dsimp only
  rw [takeWhile_decimal]
  cases htext : decimal n with
  | nil => exact absurd htext (decimal_ne_nil n)
  | cons u rest =>
    have hvalue := digitsValue_decimal n
    rw [htext] at hvalue
    simp only [hvalue]

theorem parseInteger_numText (n : ℤ) : parseInteger (numText (some n)) = some n := by
  rw [numText]
  split
  · have htrim := trimStart_of_head 45 (decimal n.natAbs) (by decide)
    have hsign : signOf (trimStart (45 :: decimal n.natAbs)) = (true, decimal n.natAbs) := by
      rw [htrim]
      rfl
    rw [parseInteger_of_signOf hsign, if_pos rfl]
    congr 1
    omega
  · have hsign : signOf (trimStart (decimal n.toNat)) = (false, decimal n.toNat) := by
      cases htext : decimal n.toNat with
      | nil => exact absurd htext (decimal_ne_nil _)
      | cons u rest =>
        have hdigit : isDigit u := isDigit_of_mem_decimal (htext ▸ List.mem_cons_self)
        rw [trimStart_of_head u rest (isSpace_of_isWord (by simp [isWord, hdigit]))]
        -- a digit is no sign
        unfold signOf
        split
        · next h => exact absurd ((List.cons.inj h).1 ▸ hdigit) (by decide)
        · next h => exact absurd ((List.cons.inj h).1 ▸ hdigit) (by decide)
        · rfl
    rw [parseInteger_of_signOf hsign, if_neg (by decide)]
    congr 1
    omega

/-! ## Timestamps -/

/-- A protobuf Timestamp. -/
structure Timestamp where
  seconds : JsString
  nanos : Num
  deriving DecidableEq, Repr

/-- `dateToTimestamp(date)` of the gateway. -/
def dateToTimestamp (date : Num) : Timestamp where
  seconds := numText (date.map (· / 1000))
  nanos := date.map fun ms => ms.tmod 1000 * 1000000

/-- `timestampToDate(timestamp)` of the gateway. -/
def timestampToDate (timestamp : Timestamp) : Num :=
  newDate do
    let seconds ← parseInteger timestamp.seconds
    let nanos ← timestamp.nanos
    some (seconds * 1000 + nanos / 1000000)

namespace Pubsub

def isoToTimestamp : Option JsString → Option Timestamp
  | none | some [] => none
  | some iso =>
      let ms := dateParse iso
      some ⟨numText (ms.map (· / 1000)), ms.map fun ms => ms.tmod 1000 * 1000000⟩

/-- An omitted Timestamp arrives as zero, so zero counts as omitted. -/
def timestampToIso : Option Timestamp → IsoResult
  | none => .missing
  | some ts =>
      let secs := parseInteger ts.seconds
      if secs = some 0 ∧ ts.nanos = some 0 then .missing
      else
        isoText do
          let secs ← secs
          let nanos ← ts.nanos
          some (secs * 1000 + nanos / 1000000)

end Pubsub

namespace Tasks

def isoToTimestamp (iso : JsString) : Timestamp :=
  let ms := dateParse iso
  ⟨numText (ms.map (· / 1000)), ms.map fun ms => ms.tmod 1000 * 1000000⟩

def timestampToIso : Option Timestamp → IsoResult
  | none => .missing
  | some ts =>
      if ts.seconds = [] then .missing
      else
        isoText do
          let secs ← parseInteger ts.seconds
          let nanos ← ts.nanos
          some (secs * 1000 + nanos / 1000000)

end Tasks

/-! ## Instants through a Timestamp -/

/-- The start of the year 1. -/
def yearOne : ℤ := -62135596800000

/-- Whether a Timestamp has its nanoseconds in the range of the format. -/
def Timestamp.Canonical (timestamp : Timestamp) : Prop :=
  ∃ nanos, timestamp.nanos = some nanos ∧ 0 ≤ nanos ∧ nanos < 1000000000

/-- A Timestamp of an instant is canonical and gives the instant back, in each of the three codecs. -/
structure RoundTrip (time : ℤ) : Prop where
  gateway : (dateToTimestamp (some time)).Canonical ∧
    timestampToDate (dateToTimestamp (some time)) = some time
  tasks : (Tasks.isoToTimestamp (toISOString time)).Canonical ∧
    Tasks.timestampToIso (some (Tasks.isoToTimestamp (toISOString time))) =
      .text (toISOString time)
  pubsub : ∃ timestamp, Pubsub.isoToTimestamp (some (toISOString time)) = some timestamp ∧
    timestamp.Canonical ∧ Pubsub.timestampToIso (some timestamp) = .text (toISOString time)

variable {time : ℤ}

/-- The Timestamp that all codecs make of an instant. -/
def timestampOf (time : ℤ) : Timestamp := dateToTimestamp (some time)

theorem tasks_isoToTimestamp (h : yearOne ≤ time) (h' : time < year10000) :
    Tasks.isoToTimestamp (toISOString time) = timestampOf time := by
  have hfirst : yearZero ≤ time := (by decide : yearZero ≤ yearOne).trans h
  rw [Tasks.isoToTimestamp, dateParse_toISOString hfirst h']
  rfl

theorem toISOString_ne_nil (h : yearOne ≤ time) (h' : time < year10000) :
    toISOString time ≠ [] := by
  intro hnil
  have hparse := dateParse_toISOString ((by decide : yearZero ≤ yearOne).trans h) h'
  have hempty : dateParse [] = none := by decide
  rw [hnil, hempty] at hparse
  exact absurd hparse.symm (Option.some_ne_none time)

theorem pubsub_isoToTimestamp (h : yearOne ≤ time) (h' : time < year10000) :
    Pubsub.isoToTimestamp (some (toISOString time)) = some (timestampOf time) := by
  have hfirst : yearZero ≤ time := (by decide : yearZero ≤ yearOne).trans h
  have hparse := dateParse_toISOString hfirst h'
  cases htext : toISOString time with
  | nil => exact absurd htext (toISOString_ne_nil h h')
  | cons u rest =>
    rw [htext] at hparse
    simp only [Pubsub.isoToTimestamp, hparse]
    rfl

/-- What the seconds and nanoseconds of an instant add up to; the remainder has the sign of the
instant. -/
def readBack (time : ℤ) : ℤ := time / 1000 * 1000 + time.tmod 1000 * 1000000 / 1000000

theorem readBack_of_not_fraction (h : 0 ≤ time ∨ time % 1000 = 0) :
    time.tmod 1000 = time % 1000 ∧ readBack time = time := by
  have hmod : time.tmod 1000 = time % 1000 := by
    rcases h with hpos | hzero
    · exact Int.tmod_eq_emod_of_nonneg hpos
    · obtain ⟨k, rfl⟩ := Int.dvd_of_emod_eq_zero hzero
      simp
  refine ⟨hmod, ?_⟩
  rw [readBack, hmod, Int.mul_ediv_cancel _ (by decide)]
  omega

theorem timestampToDate_timestampOf (time : ℤ) :
    timestampToDate (timestampOf time) = newDate (some (readBack time)) := by
  unfold timestampToDate timestampOf dateToTimestamp
  simp only [Option.map_some, parseInteger_numText]
  rfl

theorem newDate_eq (h : yearOne ≤ time) (h' : time < year10000) :
    newDate (some time) = some time := by
  unfold yearOne at h
  unfold year10000 at h'
  have hrange : time.natAbs ≤ 8640000000000000 := by omega
  simp [newDate, hrange]

theorem tasks_timestampToIso (time : ℤ) :
    Tasks.timestampToIso (some (timestampOf time)) = isoText (some (readBack time)) := by
  have hne : (timestampOf time).seconds ≠ [] := by
    show numText (some (time / 1000)) ≠ []
    rw [numText]
    split
    · exact List.cons_ne_nil _ _
    · exact decimal_ne_nil _
  simp only [Tasks.timestampToIso, if_neg hne]
  simp only [timestampOf, dateToTimestamp, Option.map_some, parseInteger_numText]
  rfl

theorem pubsub_timestampToIso (time : ℤ) :
    Pubsub.timestampToIso (some (timestampOf time)) =
      if time / 1000 = 0 ∧ time.tmod 1000 = 0 then .missing
      else isoText (some (readBack time)) := by
  have hzero : (time.tmod 1000 * 1000000 = 0) ↔ time.tmod 1000 = 0 := by omega
  simp only [Pubsub.timestampToIso, timestampOf, dateToTimestamp, Option.map_some,
    parseInteger_numText, Option.some.injEq, hzero]
  rfl

theorem isoText_eq (h : yearOne ≤ time) (h' : time < year10000) :
    isoText (some time) = .text (toISOString time) := by
  rw [isoText, newDate_eq h h']

theorem canonical_timestampOf (h : time.tmod 1000 = time % 1000) :
    (timestampOf time).Canonical := by
  refine ⟨time.tmod 1000 * 1000000, rfl, ?_, ?_⟩
  · omega
  · omega

/-- **Instants through a Timestamp.** An instant of the years 1 to 9999 that is not a fraction of a
second before 1970 has a canonical Timestamp, which gives it back; the Pub/Sub handlers take the
Timestamp of 1970-01-01T00:00:00Z for an omitted one. -/
theorem timestamps_round_trip (h : yearOne ≤ time) (h' : time < year10000)
    (hfraction : 0 ≤ time ∨ time % 1000 = 0) :
    ((dateToTimestamp (some time)).Canonical ∧
        timestampToDate (dateToTimestamp (some time)) = some time) ∧
      ((Tasks.isoToTimestamp (toISOString time)).Canonical ∧
        Tasks.timestampToIso (some (Tasks.isoToTimestamp (toISOString time))) =
          .text (toISOString time)) ∧
      ∃ timestamp, Pubsub.isoToTimestamp (some (toISOString time)) = some timestamp ∧
        timestamp.Canonical ∧ Pubsub.timestampToIso (some timestamp) =
          if time = 0 then .missing else .text (toISOString time) := by
  obtain ⟨hmod, hback⟩ := readBack_of_not_fraction hfraction
  have hcanonical := canonical_timestampOf hmod
  refine ⟨⟨hcanonical, ?_⟩, ?_, timestampOf time, pubsub_isoToTimestamp h h', hcanonical, ?_⟩
  · calc timestampToDate (dateToTimestamp (some time))
        = newDate (some (readBack time)) := timestampToDate_timestampOf time
      _ = some time := by rw [hback, newDate_eq h h']
  · rw [tasks_isoToTimestamp h h', tasks_timestampToIso, hback]
    exact ⟨hcanonical, isoText_eq h h'⟩
  · have hzero : (time / 1000 = 0 ∧ time.tmod 1000 = 0) ↔ time = 0 := by omega
    rw [pubsub_timestampToIso, hback, isoText_eq h h']
    simp only [hzero]

theorem timestamps_round_trip_first :
    timestampToDate (dateToTimestamp (some yearOne)) = some yearOne := by
  have hround := timestamps_round_trip (le_refl yearOne) (by decide) (.inr (by decide))
  exact hround.1.2

/-- The Timestamp of the first instant of 1970 counts as omitted in the Pub/Sub handlers. -/
theorem not_timestamps_round_trip :
    ¬∀ time, yearOne ≤ time → time < year10000 → RoundTrip time := by
  intro h
  obtain ⟨timestamp, hto, -, hback⟩ := (h 0 (by decide) (by decide)).pubsub
  rw [pubsub_isoToTimestamp (by decide) (by decide)] at hto
  obtain rfl := Option.some.inj hto
  rw [pubsub_timestampToIso, if_pos (by decide)] at hback
  cases hback

/-! ## Durations -/

/-- What the group `(\d+)` of `/^(\d+)(?:\.(\d+))?s$/` behind the dot captures. -/
def fractionMatch (rest : JsString) : Option JsString :=
  match rest.takeWhile isDigit with
  | [] => none
  | fraction => if rest.dropWhile isDigit = [115] then some fraction else none

/-- What `/^(\d+)(?:\.(\d+))?s$/` captures. -/
def durationMatch (text : JsString) : Option (JsString × Option JsString) :=
  match text.takeWhile isDigit with
  | [] => none
  | whole =>
      match text.dropWhile isDigit with
      | [115] => some (whole, none)
      | 46 :: rest => (fractionMatch rest).map fun fraction => (whole, some fraction)
      | _ => none

/-- `text.padEnd(width, '0')`. -/
def padEnd (width : ℕ) (text : JsString) : JsString :=
  text ++ List.replicate (width - text.length) 48

/-- A protobuf Duration as the handlers make it. -/
structure ProtoDuration where
  seconds : JsString
  nanos : ℤ
  deriving DecidableEq, Repr

/-- The Duration of captured texts. -/
def ofCaptures : JsString × Option JsString → ProtoDuration
  | (seconds, none) => ⟨seconds, 0⟩
  | (seconds, some fracStr) => ⟨seconds, digitsValue ((padEnd 9 fracStr).take 9)⟩

/-- The text with seconds and, when there are any, nanoseconds, which lose their last zeros. -/
def durationText (secs nanos : Num) : JsString :=
  if nanos = some 0 then numText secs ++ js "s"
  else numText secs ++ js "." ++ (padStart 9 (numText nanos)).rdropWhile (· = 48) ++ js "s"

namespace Pubsub

/-- The seconds of an incoming Duration, which may be a number. -/
inductive Seconds where
  | missing
  | text (seconds : JsString)
  | number (seconds : ℤ)

/-- A Duration that comes in, as an object or as a text. -/
inductive DurationInput where
  | missing
  | text (duration : JsString)
  | proto (seconds : Seconds) (nanos : Option ℤ)

def Seconds.value : Seconds → Num
  | .missing => some 0
  | .text seconds => parseInteger seconds
  | .number seconds => some seconds

def protoDurationToStr : DurationInput → Option JsString
  | .missing => none
  | .text duration =>
      if endsWith duration "s" ∧ 1 < duration.length then some duration else none
  | .proto seconds nanos =>
      if seconds.value = some 0 ∧ nanos.getD 0 = 0 then none
      else some (durationText seconds.value (some (nanos.getD 0)))

def durationStrToProto : Option JsString → Option ProtoDuration
  | none | some [] => none
  | some s => (durationMatch s).map ofCaptures

end Pubsub

namespace Tasks

def protoDurationToStr : Option ProtoDuration → Option JsString
  | none => none
  | some d =>
      some (durationText (parseInteger (if d.seconds = [] then js "0" else d.seconds)) (some d.nanos))

def parseDurationStr (s : JsString) : ProtoDuration :=
  match durationMatch s with
  | none => ⟨js "0", 0⟩
  | some captures => ofCaptures captures

end Tasks

/-! ## Durations through their text -/

/-- What `rdropWhile` takes away of one value is that value, repeated. -/
theorem exists_replicate_rdropWhile {α : Type*} [DecidableEq α] (a : α) (l : List α) :
    ∃ k, l = l.rdropWhile (· = a) ++ List.replicate k a := by
  have hrun : ∀ x ∈ (l.reverse.takeWhile (· = a)).reverse, x = a := by
    intro x hx
    have hx := List.mem_takeWhile_imp (List.mem_reverse.1 hx)
    exact of_decide_eq_true hx
  refine ⟨(l.reverse.takeWhile (· = a)).reverse.length, ?_⟩
  rw [← List.eq_replicate_of_mem hrun, List.rdropWhile, ← List.reverse_append,
    List.takeWhile_append_dropWhile, List.reverse_reverse]

/-- The last zeros come back. -/
theorem padEnd_rdropWhile {width : ℕ} {text : JsString} (h : text.length = width) :
    (padEnd width (text.rdropWhile (· = 48))).take width = text := by
  obtain ⟨k, hk⟩ := exists_replicate_rdropWhile 48 text
  have hlength := congrArg List.length hk
  rw [List.length_append, List.length_replicate] at hlength
  have hzeros : width - (text.rdropWhile (· = 48)).length = k := by omega
  rw [padEnd, hzeros, ← hk, List.take_of_length_le h.le]

theorem durationMatch_whole {whole : JsString} (hne : whole ≠ []) (hwhole : ∀ u ∈ whole, isDigit u) :
    durationMatch (whole ++ js "s") = some (whole, none) := by
  have htake : (whole ++ js "s").takeWhile isDigit = whole :=
    takeWhile_append_of_head hwhole fun _ hu => by cases hu; rfl
  have hdrop : (whole ++ js "s").dropWhile isDigit = [115] := by
    rw [List.dropWhile_append_of_pos hwhole]
    rfl
  unfold durationMatch
  rw [htake, hdrop]
  cases whole with
  | nil => exact absurd rfl hne
  | cons u rest => rfl

theorem fractionMatch_append {fraction : JsString} (hne : fraction ≠ [])
    (hfraction : ∀ u ∈ fraction, isDigit u) : fractionMatch (fraction ++ js "s") = some fraction := by
  have htake : (fraction ++ js "s").takeWhile isDigit = fraction :=
    takeWhile_append_of_head hfraction fun _ hu => by cases hu; rfl
  have hdrop : (fraction ++ js "s").dropWhile isDigit = [115] := by
    rw [List.dropWhile_append_of_pos hfraction]
    rfl
  unfold fractionMatch
  rw [htake, hdrop]
  cases fraction with
  | nil => exact absurd rfl hne
  | cons u rest => rfl

theorem durationMatch_fraction {whole fraction : JsString} (hne : whole ≠ [])
    (hwhole : ∀ u ∈ whole, isDigit u) (hne' : fraction ≠ [])
    (hfraction : ∀ u ∈ fraction, isDigit u) :
    durationMatch (whole ++ js "." ++ fraction ++ js "s") = some (whole, some fraction) := by
  have hdot : js "." = [46] := rfl
  have htake : (whole ++ 46 :: (fraction ++ js "s")).takeWhile isDigit = whole :=
    takeWhile_append_of_head hwhole (by simp [isDigit])
  have hdrop : (whole ++ 46 :: (fraction ++ js "s")).dropWhile isDigit =
      46 :: (fraction ++ js "s") := by
    rw [List.dropWhile_append_of_pos hwhole, List.dropWhile_cons_of_neg (by decide)]
  unfold durationMatch
  simp only [hdot, List.append_assoc, List.cons_append, List.nil_append]
  rw [htake, hdrop]
  cases whole with
  | nil => exact absurd rfl hne
  | cons u rest =>
    show (fractionMatch (fraction ++ js "s")).map _ = _
    rw [fractionMatch_append hne' hfraction, Option.map_some]

/-- The text of a Duration is read back: every digit of the nanoseconds counts. -/
theorem durationMatch_durationText (seconds : ℕ) {nanos : ℕ} (hnanos : nanos < 1000000000) :
    (durationMatch (durationText (some (seconds : ℤ)) (some (nanos : ℤ)))).map ofCaptures =
      some ⟨decimal seconds, nanos⟩ := by
  have hsecs : numText (some (seconds : ℤ)) = decimal seconds := by
    rw [numText, if_neg (by omega), Int.toNat_natCast]
  have hwhole : ∀ u ∈ decimal seconds, isDigit u := fun u hu => isDigit_of_mem_decimal hu
  unfold durationText
  split
  · next h =>
    have hzero : nanos = 0 := by simpa using h
    rw [hsecs, durationMatch_whole (decimal_ne_nil _) hwhole, hzero]
    rfl
  · next h =>
    have hne : nanos ≠ 0 := by
      rintro rfl
      exact h rfl
    have htext : numText (some (nanos : ℤ)) = decimal nanos := by
      rw [numText, if_neg (by omega), Int.toNat_natCast]
    have hlength : (padStart 9 (decimal nanos)).length = 9 :=
      length_padStart (length_decimal_le (by decide) hnanos)
    have hrestored := padEnd_rdropWhile hlength
    have hdigits : ∀ u ∈ (padStart 9 (decimal nanos)).rdropWhile (· = 48), isDigit u := by
      intro u hu
      exact isDigit_of_mem_padStart ((List.rdropWhile_prefix _ _).subset hu)
    have hfraction : (padStart 9 (decimal nanos)).rdropWhile (· = 48) ≠ [] := by
      intro hnil
      -- nothing but zeros is the number zero
      have hvalue := digitsValue_padStart 9 nanos
      rw [← hrestored, hnil] at hvalue
      exact hne (hvalue.symm.trans (by decide))
    rw [hsecs, htext, durationMatch_fraction (decimal_ne_nil _) hwhole hfraction hdigits]
    show some (ProtoDuration.mk (decimal seconds) _) = _
    rw [hrestored, digitsValue_padStart]

theorem durationText_ne_nil (secs nanos : Num) : durationText secs nanos ≠ [] := by
  have hlast : js "s" ≠ [] := by decide
  unfold durationText
  split <;> exact List.append_ne_nil_of_right_ne_nil _ hlast

/-- **Durations through their text.** Every Duration in the range of the format that is not zero comes
back, from the Pub/Sub handlers, whether its seconds arrive as text or as a number, and from the Cloud
Tasks handlers. -/
theorem durations_round_trip {seconds nanos : ℕ} (hseconds : seconds ≤ 315576000000)
    (hnanos : nanos < 1000000000) (hne : ¬(seconds = 0 ∧ nanos = 0)) :
    Pubsub.durationStrToProto
        (Pubsub.protoDurationToStr (.proto (.text (decimal seconds)) (some nanos))) =
      some ⟨decimal seconds, nanos⟩ ∧
    Pubsub.durationStrToProto
        (Pubsub.protoDurationToStr (.proto (.number seconds) (some nanos))) =
      some ⟨decimal seconds, nanos⟩ ∧
    (Tasks.protoDurationToStr (some ⟨decimal seconds, nanos⟩)).map Tasks.parseDurationStr =
      some ⟨decimal seconds, nanos⟩ := by
  have hread := durationMatch_durationText seconds hnanos
  have hparse : parseInteger (decimal seconds) = some (seconds : ℤ) := by
    have hsigned := parseInteger_numText seconds
    rwa [numText, if_neg (by omega), Int.toNat_natCast] at hsigned
  have hzero : ¬((some (seconds : ℤ) : Num) = some 0 ∧ (nanos : ℤ) = 0) := by
    rintro ⟨hsecs, hnano⟩
    have hsecs := Option.some.inj hsecs
    omega
  have hpubsub : Pubsub.durationStrToProto
      (some (durationText (some (seconds : ℤ)) (some (nanos : ℤ)))) =
        some ⟨decimal seconds, nanos⟩ := by
    cases htext : durationText (some (seconds : ℤ)) (some (nanos : ℤ)) with
    | nil => exact absurd htext (durationText_ne_nil _ _)
    | cons u rest =>
      rw [Pubsub.durationStrToProto, ← htext, hread]
      exact List.cons_ne_nil u rest
  have hto : ∀ s : Pubsub.Seconds, s.value = some (seconds : ℤ) →
      Pubsub.protoDurationToStr (.proto s (some nanos)) =
        some (durationText (some (seconds : ℤ)) (some (nanos : ℤ))) := by
    intro s hs
    rw [← hs] at hzero ⊢
    exact if_neg hzero
  refine ⟨?_, ?_, ?_⟩
  · rw [hto (.text (decimal seconds)) hparse, hpubsub]
  · rw [hto (.number seconds) rfl, hpubsub]
  · obtain ⟨captures, hmatch, hcaptures⟩ := Option.map_eq_some_iff.1 hread
    rw [Tasks.protoDurationToStr, if_neg (decimal_ne_nil _), hparse, Option.map_some,
      Tasks.parseDurationStr, hmatch]
    exact congrArg some hcaptures

theorem durations_round_trip_half : Pubsub.durationStrToProto
    (Pubsub.protoDurationToStr (.proto (.text (decimal 3)) (some (500000000 : ℕ)))) =
      some ⟨decimal 3, (500000000 : ℕ)⟩ :=
  (durations_round_trip (by decide) (by decide) (by decide)).1

example : Pubsub.protoDurationToStr (.proto (.text "3") (some 50)) = some (js "3.00000005s") := by
  decide +kernel

end Kinglet.ProtoTime
