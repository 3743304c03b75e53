import Kinglet.Js.DateOrder
import Kinglet.Postgres.FrameNames

/-!
# Prepared names on the backend

Statements and portals reach the backend under the name of their connection, a slash and their own
name, of which the backend keeps the first 63 bytes. The prefix is at the front, so names of different
connections stay apart. Within a connection the prefix takes the place of the last bytes of long names,
and names that differ there only become one.
-/

namespace Kinglet.Postgres

open Js

/-- The id of a connection, by a counter that is an exact JavaScript integer. -/
def connectionId (n : ℕ) : JsString := js "conn-" ++ decimal n

/-- `NAMEDATALEN - 1`: how many bytes of an identifier Postgres keeps. -/
def identifierLimit : ℕ := 63

/-- The prefix of a connection. -/
def prefixBytes (n : ℕ) : List ℕ := encode (buildConnectionNamespace (connectionId n))

/-- The name under which the backend has a statement or portal of a connection. -/
def backendName (n : ℕ) (name : List ℕ) : List ℕ :=
  (renamed (prefixBytes n) name).take identifierLimit

/-! ## The prefix -/

theorem prefixBytes_eq (n : ℕ) :
    prefixBytes n = [99, 111, 110, 110, 45] ++ (decimal n).map UInt16.toNat ++ [47] := by
  have hascii : ∀ u ∈ js "conn-" ++ decimal n ++ js "/", u < 0x80 := by
    intro u hu
    rw [List.mem_append, List.mem_append] at hu
    rcases hu with (hu | hu) | hu
    · exact of_decide_eq_true (List.all_eq_true.1 (by decide : (js "conn-").all (· < 0x80) = true) u hu)
    · have hdigit := isDigit_of_mem_decimal hu
      simp only [isDigit, Bool.and_eq_true, decide_eq_true_eq] at hdigit
      exact UInt16.lt_of_le_of_lt hdigit.2 (by decide)
    · exact of_decide_eq_true (List.all_eq_true.1 (by decide : (js "/").all (· < 0x80) = true) u hu)
  rw [prefixBytes, buildConnectionNamespace, connectionId, encode_of_ascii hascii, List.map_append,
    List.map_append]
  rfl

theorem le_of_mem_digits {n b : ℕ} (h : b ∈ (decimal n).map UInt16.toNat) : 48 ≤ b := by
  obtain ⟨u, hu, rfl⟩ := List.mem_map.1 h
  have hdigit := isDigit_of_mem_decimal hu
  simp only [isDigit, Bool.and_eq_true, decide_eq_true_eq] at hdigit
  exact hdigit.1

theorem length_prefixBytes_le {n : ℕ} (h : n < 2 ^ 53) :
    (prefixBytes n).length ≤ identifierLimit := by
  have hwidth : n < 10 ^ 16 := h.trans (by norm_num)
  have hdigits := length_decimal_le (by decide) hwidth
  rw [prefixBytes_eq]
  simp only [List.length_append, List.length_map, List.length_cons, List.length_nil]
  unfold identifierLimit
  omega

theorem takeWhile_digits (n : ℕ) (a : List ℕ) :
    ((decimal n).map UInt16.toNat ++ 47 :: a).takeWhile (48 ≤ ·) = (decimal n).map UInt16.toNat := by
  have hdigits : ∀ b ∈ (decimal n).map UInt16.toNat, decide (48 ≤ b) = true := by
    intro b hb
    exact decide_eq_true (le_of_mem_digits hb)
  rw [List.takeWhile_append_of_pos hdigits, List.takeWhile_cons_of_neg (by decide), List.append_nil]

/-- The slash ends the digits, so a name with its prefix determines the connection. -/
theorem prefixBytes_append_inj {m n : ℕ} {a b : List ℕ}
    (h : prefixBytes m ++ a = prefixBytes n ++ b) : m = n ∧ a = b := by
  simp only [prefixBytes_eq, List.append_assoc, List.singleton_append] at h
  have hrest := List.append_cancel_left h
  have hdigits := congrArg (List.takeWhile (48 ≤ ·)) hrest
  rw [takeWhile_digits, takeWhile_digits] at hdigits
  have hmn : m = n :=
    decimal_injective (List.map_injective_iff.2 (fun u v => UInt16.toNat_inj.1) hdigits)
  subst hmn
  exact ⟨rfl, List.tail_eq_of_cons_eq (List.append_cancel_left hrest)⟩

/-! ## The names on the backend -/

/-- A name on the backend is the prefix of its connection and as much of the name as fits. -/
theorem backendName_eq {n : ℕ} (hn : n < 2 ^ 53) {name : List ℕ} (h : name ≠ []) :
    backendName n name =
      prefixBytes n ++ name.take (identifierLimit - (prefixBytes n).length) := by
  rw [backendName, renamed, if_neg h, List.take_append, List.take_of_length_le (length_prefixBytes_le hn)]

/-- Names on the backend differ when their connections do, and within a connection when the names
differ in the bytes that fit after the prefix. -/
theorem backendName_ne_iff {m n : ℕ} (hm : m < 2 ^ 53) (hn : n < 2 ^ 53) {a b : List ℕ}
    (ha : 1 ≤ a.length ∧ a.length ≤ identifierLimit)
    (hb : 1 ≤ b.length ∧ b.length ≤ identifierLimit) (hne : (m, a) ≠ (n, b)) :
    backendName m a ≠ backendName n b ↔
      m ≠ n ∨ a.take (identifierLimit - (prefixBytes m).length) ≠
        b.take (identifierLimit - (prefixBytes m).length) := by
  rw [backendName_eq hm (List.ne_nil_of_length_pos ha.1),
    backendName_eq hn (List.ne_nil_of_length_pos hb.1)]
  constructor
  · intro h
    by_cases hmn : m = n
    · subst hmn
      exact .inr fun heq => h (heq ▸ rfl)
    · exact .inl hmn
  · intro h heq
    obtain ⟨rfl, hnames⟩ := prefixBytes_append_inj heq
    rcases h with h | h
    · exact h rfl
    · exact h hnames

/-- A name of 62 bytes on the first two connections, and names that differ in their second byte. -/
theorem backendName_ne_iff_short :
    backendName 1 (List.replicate 62 120) ≠ backendName 2 (List.replicate 62 120) ∧
      backendName 1 [120, 121] ≠ backendName 1 [120, 122] :=
  ⟨(backendName_ne_iff (by decide) (by decide) (by decide) (by decide) (by decide)).2
      (.inl (by decide)),
    (backendName_ne_iff (by decide) (by decide) (by decide) (by decide) (by decide)).2
      (.inr (by decide))⟩

/-- Two names of 63 bytes that differ in the last are one name on the backend. -/
theorem not_backendName_ne :
    ¬ ∀ m n : ℕ, ∀ a b : List ℕ, 1 ≤ a.length ∧ a.length ≤ identifierLimit →
      1 ≤ b.length ∧ b.length ≤ identifierLimit → (m, a) ≠ (n, b) →
        backendName m a ≠ backendName n b := by
  intro h
  exact h 1 1 (List.replicate 62 120 ++ [97]) (List.replicate 62 120 ++ [98]) (by decide) (by decide)
    (by decide) (by decide)

end Kinglet.Postgres
