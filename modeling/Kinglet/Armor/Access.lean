import Kinglet.Armor.Eval

/-!
# Access to the environment's records

An expression reaches the request and origin records through its identifiers. Two sets of records
are followed through an expression: those its value may be (`mayBe`) and those that may lie inside
its value (`inside`), since a list or a map can carry a record to a later access. `follows` asks of
every access to a value that may be a record that the key is a literal and is in order. The two uses
are the body of a request and the names a request can fail on.
-/

namespace Kinglet.Armor

open Js

/-! ## Induction over expressions -/

theorem sizeOf_lt_of_mem_childrenOf {child node : Ast} (hchild : child ∈ childrenOf node) :
    SizeOf.sizeOf child < SizeOf.sizeOf node := by
  cases node with
  | lit | ident => exact absurd hchild List.not_mem_nil
  | member object name s =>
      rw [List.mem_singleton.1 hchild]
      simp only [Ast.member.sizeOf_spec]
      omega
  | index object key s =>
      simp only [childrenOf, List.mem_cons, List.not_mem_nil, or_false] at hchild
      rcases hchild with rfl | rfl <;> simp only [Ast.index.sizeOf_spec] <;> omega
  | call callee args s =>
      rcases List.mem_cons.1 hchild with rfl | hmem
      · simp only [Ast.call.sizeOf_spec]
        omega
      · have := List.sizeOf_lt_of_mem hmem
        simp only [Ast.call.sizeOf_spec]
        omega
  | unary op arg s =>
      rw [List.mem_singleton.1 hchild]
      simp only [Ast.unary.sizeOf_spec]
      omega
  | binary op left right s =>
      simp only [childrenOf, List.mem_cons, List.not_mem_nil, or_false] at hchild
      rcases hchild with rfl | rfl <;> simp only [Ast.binary.sizeOf_spec] <;> omega
  | list elements s =>
      have hmem : child ∈ elements := hchild
      have := List.sizeOf_lt_of_mem hmem
      simp only [Ast.list.sizeOf_spec]
      omega
  | map entries s =>
      obtain ⟨⟨key, value⟩, hentry, hmem⟩ := List.mem_flatMap.1 hchild
      have hlt := List.sizeOf_lt_of_mem hentry
      simp only [List.mem_cons, List.not_mem_nil, or_false] at hmem
      simp only [Prod.mk.sizeOf_spec] at hlt
      rcases hmem with rfl | rfl <;> simp only [Ast.map.sizeOf_spec] <;> omega

/-- Induction over an expression with all nodes below it at hand. -/
theorem Ast.induction_nodes {P : Ast → Prop}
    (h : ∀ node, (∀ child ∈ childrenOf node, ∀ below ∈ nodes child, P below) → P node)
    (node : Ast) : P node := by
  suffices hall : ∀ n, ∀ node : Ast, SizeOf.sizeOf node < n → ∀ below ∈ nodes node, P below from
    hall (SizeOf.sizeOf node + 1) node (Nat.lt_succ_self _) node (self_mem_nodes node)
  intro n
  induction n with
  | zero => exact fun _ hlt => absurd hlt (Nat.not_lt_zero _)
  | succ n ih =>
      intro node hlt below hbelow
      have hchildren : ∀ child ∈ childrenOf node, ∀ below ∈ nodes child, P below :=
        fun child hchild => ih child (by have := sizeOf_lt_of_mem_childrenOf hchild; omega)
      rcases mem_nodes_iff.1 hbelow with rfl | ⟨child, hchild, hmem⟩
      · exact h below hchildren
      · exact hchildren child hchild below hmem

theorem mem_nodes_trans {below node root : Ast} (hnode : node ∈ nodes root)
    (hbelow : below ∈ nodes node) : below ∈ nodes root := by
  induction root using Ast.induction_nodes with
  | h root ih =>
      rcases mem_nodes_iff.1 hnode with rfl | ⟨child, hchild, hmem⟩
      · exact hbelow
      · exact mem_nodes_of_child hchild (ih child hchild child (self_mem_nodes child) hmem)

/-! ## Access rules -/

/-- What an expression may access: the records watched, and whether an identifier, a key of a record
(`none` for one that is no literal) and the callee of a call are in order. -/
structure AccessRules where
  records : List JsString
  ident : JsString → Bool
  field : JsString → Option JsString → Bool
  callee : Ast → Bool

/-- The text of a literal key. -/
def literalKey : Ast → Option JsString
  | .lit value _ => toText value.value
  | _ => none

mutual
/-- The records that may lie inside the value of an expression. -/
def inside (rules : AccessRules) : Ast → List JsString
  | .member object _ _ | .index object _ _ => inside rules object
  | .list elements _ => insideAll rules elements
  | .map entries _ => insideValues rules entries
  | _ => []

def insideAll (rules : AccessRules) : List Ast → List JsString
  | [] => []
  | node :: rest => mayBe rules node ++ inside rules node ++ insideAll rules rest

def insideValues (rules : AccessRules) : List (Ast × Ast) → List JsString
  | [] => []
  | (_, value) :: rest => mayBe rules value ++ inside rules value ++ insideValues rules rest

/-- The records that the value of an expression may be. No field of a record is one. -/
def mayBe (rules : AccessRules) : Ast → List JsString
  | .ident name _ => if name ∈ rules.records then [name] else []
  | .member object _ _ | .index object _ _ => inside rules object
  | _ => []
end

mutual
/-- Whether every access that is evaluated follows the rules. -/
def follows (rules : AccessRules) : Ast → Bool
  | .lit _ _ => true
  | .ident name _ => rules.ident name
  | .member object name _ =>
      follows rules object && (mayBe rules object).all fun record => rules.field record (some name)
  | .index object key _ =>
      follows rules object && follows rules key &&
        (mayBe rules object).all fun record => rules.field record (literalKey key)
  | .call callee args _ =>
      rules.callee callee && followsTarget rules callee && followsAll rules args
  | .unary _ arg _ => follows rules arg
  | .binary _ left right _ => follows rules left && follows rules right
  | .list elements _ => followsAll rules elements
  | .map entries _ => followsEntries rules entries

/-- Of a callee only the object of a member is evaluated. -/
def followsTarget (rules : AccessRules) : Ast → Bool
  | .member object _ _ => follows rules object
  | _ => true

def followsAll (rules : AccessRules) : List Ast → Bool
  | [] => true
  | node :: rest => follows rules node && followsAll rules rest

def followsEntries (rules : AccessRules) : List (Ast × Ast) → Bool
  | [] => true
  | (key, value) :: rest =>
      follows rules key && follows rules value && followsEntries rules rest
end

/-- An expression follows the rules if its tree does; without a tree nothing is evaluated. -/
def expressionFollows (rules : AccessRules) (expression : JsString) : Bool :=
  match parseExpressionAst expression with
  | .ok tree => follows rules tree
  | .error _ => true

section Spec

variable {rules : AccessRules}

theorem follows_of_expressionFollows {expression : JsString} {tree : Ast}
    (h : expressionFollows rules expression = true)
    (hparse : parseExpressionAst expression = .ok tree) : follows rules tree = true := by
  rwa [expressionFollows, hparse] at h

theorem followsAll_iff {list : List Ast} :
    followsAll rules list = true ↔ ∀ node ∈ list, follows rules node = true := by
  induction list with
  | nil => simp [followsAll]
  | cons node rest ih => simp [followsAll, ih]

theorem followsEntries_iff {entries : List (Ast × Ast)} :
    followsEntries rules entries = true ↔
      ∀ entry ∈ entries, follows rules entry.1 = true ∧ follows rules entry.2 = true := by
  induction entries with
  | nil => simp [followsEntries]
  | cons entry rest ih => simp [followsEntries, ih, and_assoc]

/-- What lies inside a list literal is or lies inside an element. -/
theorem mem_insideAll {record : JsString} {list : List Ast} :
    record ∈ insideAll rules list ↔
      ∃ node ∈ list, record ∈ mayBe rules node ∨ record ∈ inside rules node := by
  induction list with
  | nil => simp [insideAll]
  | cons node rest ih => simp [insideAll, ih, or_assoc]

theorem mem_insideValues {record : JsString} {entries : List (Ast × Ast)} :
    record ∈ insideValues rules entries ↔
      ∃ entry ∈ entries, record ∈ mayBe rules entry.2 ∨ record ∈ inside rules entry.2 := by
  induction entries with
  | nil => simp [insideValues]
  | cons entry rest ih => simp [insideValues, ih, or_assoc]

theorem insideAll_eq_nil {list : List Ast} :
    insideAll rules list = [] ↔ ∀ node ∈ list, mayBe rules node = [] ∧ inside rules node = [] := by
  induction list with
  | nil => simp [insideAll]
  | cons node rest ih => simp [insideAll, ih, and_assoc]

theorem insideValues_eq_nil {entries : List (Ast × Ast)} :
    insideValues rules entries = [] ↔
      ∀ entry ∈ entries, mayBe rules entry.2 = [] ∧ inside rules entry.2 = [] := by
  induction entries with
  | nil => simp [insideValues]
  | cons entry rest ih => simp [insideValues, ih, and_assoc]

theorem literalKey_eq_some {key : Ast} {name : JsString} (h : literalKey key = some name) :
    ∃ value s, key = .lit value s ∧ toText value.value = some name := by
  cases key with
  | lit value s => exact ⟨value, s, rfl, h⟩
  | _ => cases h

end Spec

end Kinglet.Armor
