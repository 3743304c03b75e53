import Kinglet.Js.Words
import Kinglet.Workflows.Precedence

/-!
# Printed expressions evaluate to what they mean

The tokenizer reads the spelled tokens of a tree back, one at a time: each is followed by a space or
by nothing, and neither extends it. With what the parser makes of the tokens, the printed text of a
tree evaluates to the value or the error of the tree, where parentheses are set for `in` below the
comparisons. Were it among them, a comparison of its result would need no parentheses, and would be
read as another tree.
-/

namespace Kinglet.Workflows

open Js Library Library.FuelParser

/-! ## Spelled tokens -/

/-- What the tokenizer makes tokens of. -/
def Token.Spelled (token : Token) : Prop :=
  match token.type with
  | .number => isNumeral token.value
  | .string => True
  | .identifier => isIdentifier token.value
  | .operator =>
      token ∈ BinaryOp.all.map BinaryOp.token ∨ token = .op "not" ∨ token = .op "in"
  | .paren => token = .lparen ∨ token = .rparen
  | .bracket => token = .lbracket ∨ token = .rbracket
  | .dot => token = .dot
  | .comma => token = .comma

/-- What follows a token. -/
def Apart (tail : JsString) : Prop := tail = [] ∨ ∃ rest, tail = 32 :: rest

/-- Whatever stands before, the token is read from its text with what follows it. -/
def ReadsBack (token : Token) : Prop :=
  ∃ u body, token.text = u :: body ∧ isSpace u = false ∧
    ∀ previous tail, Apart tail → readToken previous u (body ++ tail) = some (token, body.length + 1)

theorem Apart.takeWhile {p : UInt16 → Bool} {body tail : JsString} (htail : Apart tail)
    (hbody : ∀ u ∈ body, p u) (hspace : p 32 = false) : (body ++ tail).takeWhile p = body := by
  rw [List.takeWhile_append_of_pos hbody]
  obtain rfl | ⟨rest, rfl⟩ := htail
  · simp
  · simp [hspace]

/-- A code unit that is neither a quote nor a backslash stands for itself. -/
theorem readString_plain {quote u : UInt16} {body : JsString} (hquote : u ≠ quote)
    (hescape : u ≠ unit '\\') (hbody : body ≠ []) :
    readString quote (u :: body) =
      (u :: (readString quote body).1, (readString quote body).2 + 1) := by
  cases body with
  | nil => exact absurd rfl hbody
  | cons e body => rw [readString, if_neg hquote, if_neg hescape]

/-- The body of a literal is read up to the closing quote. -/
theorem readString_escape (text tail : JsString) :
    readString (unit '"') (escape text ++ unit '"' :: tail) = (text, (escape text).length + 1) := by
  induction text with
  | nil => cases tail <;> rfl
  | cons u text ih =>
      rw [escape, List.flatMap_cons, ← escape]
      by_cases hu : u = unit '"' ∨ u = unit '\\'
      · have hunescape : unescape u = u := by rcases hu with rfl | rfl <;> decide
        rw [if_pos hu, List.append_assoc, List.cons_append, List.singleton_append, readString,
          if_neg (by decide), if_pos rfl, ih, hunescape]
        simp
      · rw [if_neg hu, List.singleton_append, List.cons_append,
          readString_plain (fun h => hu (.inl h)) (fun h => hu (.inr h)) (by simp), ih]
        simp

theorem readsBack_string (text : JsString) : ReadsBack ⟨.string, text⟩ := by
  refine ⟨unit '"', escape text ++ [unit '"'], rfl, by decide, fun previous tail _ => ?_⟩
  rw [List.append_assoc, List.singleton_append]
  simp [readToken, readString_escape]

/-- An operator, in the text: its code units, with nothing or a space behind. -/
theorem readsBack_operator {token : Token}
    (htoken : token ∈ BinaryOp.all.map BinaryOp.token ∨ token = .op "not" ∨ token = .op "in") :
    ReadsBack token := by
  rcases htoken with hmem | rfl | rfl
  · obtain ⟨op, -, rfl⟩ := List.mem_map.1 hmem
    cases op
    all_goals
      refine ⟨_, _, rfl, by decide, fun previous tail htail => ?_⟩
      obtain rfl | ⟨rest, rfl⟩ := htail
      · rfl
      · rfl
  · refine ⟨_, _, rfl, by decide, fun previous tail htail => ?_⟩
    obtain rfl | ⟨rest, rfl⟩ := htail
    · rfl
    · rfl
  · refine ⟨_, _, rfl, by decide, fun previous tail htail => ?_⟩
    obtain rfl | ⟨rest, rfl⟩ := htail
    · rfl
    · rfl

theorem readsBack_numeral {text : JsString} (hvalid : isNumeral text) :
    ReadsBack ⟨.number, text⟩ := by
  cases text with
  | nil => exact absurd hvalid (by decide)
  | cons u body =>
      simp only [isNumeral, List.head?_cons, Option.any_some, List.all_cons, Bool.and_eq_true,
        List.all_eq_true] at hvalid
      obtain ⟨hdigit, -, hbody⟩ := hvalid
      have hne : ∀ c, isDigit c = false → u ≠ c := by
        rintro c hc rfl
        exact absurd hdigit (by simp [hc])
      refine ⟨u, body, rfl, ?_, fun previous tail htail => ?_⟩
      · exact isSpace_of_isDigit hdigit
      · simp [readToken, hne (unit '"') (by decide), hne (unit '\'') (by decide), hdigit,
          htail.takeWhile hbody (by decide)]

theorem isIdentStart_bounds {u : UInt16} (hstart : isIdentStart u) : 65 ≤ u ∧ u ≤ 122 := by
  simp only [isIdentStart, Bool.or_eq_true, Bool.and_eq_true, decide_eq_true_eq] at hstart
  obtain (⟨hlow, hhigh⟩ | ⟨hlow, hhigh⟩) | rfl := hstart
  · exact ⟨hlow, UInt16.le_trans hhigh (by decide)⟩
  · exact ⟨UInt16.le_trans (by decide) hlow, hhigh⟩
  · decide

/-- The code units other than letters at which the tokenizer looks. -/
def marks : List UInt16 :=
  [unit '"', unit '\'', unit '-', 33, 60, 61, 62, unit '+', unit '*', unit '/', unit '%', unit '>',
    unit '<', 40, 41, 91, 93, 46, 44]

/-- At a letter, none of the earlier tests of the tokenizer applies. -/
theorem readToken_word {previous : Option Token} {u : UInt16} {rest : JsString}
    (hstart : isIdentStart u) :
    readToken previous u rest =
      some (wordToken (u :: rest.takeWhile isWord), (rest.takeWhile isWord).length + 1) := by
  have hmarks : ∀ c ∈ marks, u ≠ c := by
    rintro c hc rfl
    have hnone : marks.all (fun c => !isIdentStart c) = true := by decide
    have hother := List.all_eq_true.1 hnone u hc
    exact absurd hstart (by simpa using hother)
  have hdigit : isDigit u = false := by
    by_contra hdigit
    simp only [isDigit, Bool.not_eq_false, Bool.and_eq_true, decide_eq_true_eq] at hdigit
    exact absurd (UInt16.le_trans (isIdentStart_bounds hstart).1 hdigit.2) (by decide)
  have heq : js "==" = [61, 61] := by decide
  have hne : js "!=" = [33, 61] := by decide
  have hge : js ">=" = [62, 61] := by decide
  have hle : js "<=" = [60, 61] := by decide
  simp only [marks, List.forall_mem_cons, List.not_mem_nil] at hmarks
  simp [readToken, isNegativeNumber, isTwoCharacterOperator, isOneCharacterOperator, heq, hne, hge,
    hle, hmarks, hdigit, hstart]

theorem readsBack_identifier {word : JsString} (hvalid : isIdentifier word) :
    ReadsBack ⟨.identifier, word⟩ := by
  cases word with
  | nil => exact absurd hvalid (by decide)
  | cons u body =>
      simp only [isIdentifier, List.head?_cons, Option.any_some, List.all_cons, Bool.and_eq_true,
        List.all_eq_true, Bool.not_eq_true'] at hvalid
      obtain ⟨⟨hstart, -, hbody⟩, hword⟩ := hvalid
      refine ⟨u, body, rfl, ?_, fun previous tail htail => ?_⟩
      · obtain ⟨hlow, hhigh⟩ := isIdentStart_bounds hstart
        exact isSpace_of_visible (UInt16.le_trans (by decide) hlow) (UInt16.le_trans hhigh (by decide))
      · rw [readToken_word hstart, htail.takeWhile hbody (by decide)]
        simp [wordToken, hword]

theorem Token.Spelled.readsBack {token : Token} (hspelled : token.Spelled) : ReadsBack token := by
  match token with
  | ⟨.number, text⟩ => exact readsBack_numeral hspelled
  | ⟨.string, text⟩ => exact readsBack_string text
  | ⟨.identifier, word⟩ => exact readsBack_identifier hspelled
  | ⟨.operator, text⟩ => exact readsBack_operator hspelled
  | ⟨.paren, text⟩ | ⟨.bracket, text⟩ =>
      rcases hspelled with h | h <;> rw [h] <;>
        exact ⟨_, _, rfl, by decide, fun previous tail htail => rfl⟩
  | ⟨.dot, text⟩ | ⟨.comma, text⟩ =>
      rw [show _ = _ from hspelled]
      exact ⟨_, _, rfl, by decide, fun previous tail htail => rfl⟩

/-- The code units of a token that has been read are skipped. -/
theorem tokenizeFrom_skip (previous : Option Token) (body tail : JsString) :
    tokenizeFrom previous body.length (body ++ tail) = tokenizeFrom previous 0 tail := by
  induction body with
  | nil => rfl
  | cons u body ih => exact ih

theorem tokenizeFrom_text {token : Token} (hspelled : token.Spelled) (previous : Option Token)
    {tail : JsString} (htail : Apart tail) :
    tokenizeFrom previous 0 (token.text ++ tail) =
      (tokenizeFrom (some token) 0 tail).map (token :: ·) := by
  obtain ⟨u, body, htext, hspace, hread⟩ := hspelled.readsBack
  rw [htext, List.cons_append, tokenizeFrom, hspace, hread previous tail htail]
  simp only [Bool.false_eq_true, if_false, Nat.add_sub_cancel, tokenizeFrom_skip]

theorem tokenizeFrom_spell (tokens : List Token) (hspelled : ∀ token ∈ tokens, token.Spelled)
    (previous : Option Token) : tokenizeFrom previous 0 (spell tokens) = .ok tokens := by
  induction tokens generalizing previous with
  | nil => rfl
  | cons token tokens ih =>
      have hrest := ih (fun token hmem => hspelled token (List.mem_cons_of_mem _ hmem)) (some token)
      cases tokens with
      | nil =>
          have htext := tokenizeFrom_text (hspelled token List.mem_cons_self) previous (.inl rfl)
          rw [List.append_nil] at htext
          rw [spell, htext]
          rfl
      | cons next tokens =>
          have hblank : tokenizeFrom (some token) 0 (32 :: spell (next :: tokens)) =
              tokenizeFrom (some token) 0 (spell (next :: tokens)) :=
            rfl
          calc
            tokenizeFrom previous 0 (token.text ++ 32 :: spell (next :: tokens))
            _ = (tokenizeFrom (some token) 0 (32 :: spell (next :: tokens))).map (token :: ·) :=
                tokenizeFrom_text (hspelled token List.mem_cons_self) previous (.inr ⟨_, rfl⟩)
            _ = .ok (token :: next :: tokens) := by
                rw [hblank, hrest]
                rfl

/-! ## The tokens of a tree -/

theorem isIdentifier_of_constant {word : JsString} {value : Value}
    (hword : constant word = some value) : isIdentifier word := by
  unfold constant at hword
  split at hword
  case isTrue h => rcases h with rfl | rfl | rfl <;> decide
  case isFalse =>
    split at hword
    case isTrue h => rcases h with rfl | rfl | rfl <;> decide
    case isFalse =>
      split at hword
      case isTrue h => rw [h]; decide
      case isFalse => cases hword

namespace Expr

theorem spelled_operator (op : BinaryOp) : op.token.Spelled := by
  cases op <;> exact Or.inl (List.mem_map_of_mem (by decide))

theorem spelled_wrapped {opening closing : Token} {inner : List Token}
    (hopening : opening.Spelled) (hinner : ∀ token ∈ inner, token.Spelled)
    (hclosing : closing.Spelled) : ∀ token ∈ opening :: (inner ++ [closing]), token.Spelled := by
  simp only [List.forall_mem_cons, List.forall_mem_append]
  exact ⟨hopening, hinner, hclosing, nofun⟩

mutual

theorem spelled_tokens (e : Expr) : ∀ token ∈ e.tokens, token.Spelled := by
  match e with
  | .number numeral => exact List.forall_mem_singleton.2 numeral.valid
  | .string text => exact List.forall_mem_singleton.2 trivial
  | .constant literal =>
      exact List.forall_mem_singleton.2 (isIdentifier_of_constant literal.spelled)
  | .variable name => exact List.forall_mem_singleton.2 name.valid
  | .paren e => exact spelled_wrapped (.inl rfl) (spelled_tokens e) (.inr rfl)
  | .list items => exact spelled_wrapped (.inl rfl) (spelled_itemTokens items) (.inr rfl)
  | .call function args =>
      exact List.forall_mem_cons.2
        ⟨function.valid, spelled_wrapped (.inl rfl) (spelled_itemTokens args) (.inr rfl)⟩
  | .method object name args =>
      refine List.forall_mem_append.2 ⟨spelled_tokens object, List.forall_mem_cons.2 ⟨rfl, ?_⟩⟩
      exact List.forall_mem_cons.2
        ⟨name.valid, spelled_wrapped (.inl rfl) (spelled_itemTokens args) (.inr rfl)⟩
  | .member object name =>
      refine List.forall_mem_append.2 ⟨spelled_tokens object, List.forall_mem_cons.2 ⟨rfl, ?_⟩⟩
      exact List.forall_mem_singleton.2 name.valid
  | .index object key =>
      exact List.forall_mem_append.2
        ⟨spelled_tokens object, spelled_wrapped (.inl rfl) (spelled_tokens key) (.inr rfl)⟩
  | .negate e => exact List.forall_mem_cons.2 ⟨spelled_operator .sub, spelled_tokens e⟩
  | .not e => exact List.forall_mem_cons.2 ⟨.inr (.inl rfl), spelled_tokens e⟩
  | .contains e container =>
      exact List.forall_mem_append.2
        ⟨spelled_tokens e, List.forall_mem_cons.2 ⟨.inr (.inr rfl), spelled_tokens container⟩⟩
  | .binary op left right =>
      exact List.forall_mem_append.2
        ⟨spelled_tokens left, List.forall_mem_cons.2 ⟨spelled_operator op, spelled_tokens right⟩⟩

theorem spelled_itemTokens (es : List Expr) : ∀ token ∈ itemTokens es, token.Spelled := by
  match es with
  | [] => nofun
  | e :: es =>
      simp only [itemTokens, List.forall_mem_append]
      exact ⟨spelled_tokens e, spelled_moreTokens es⟩

theorem spelled_moreTokens (es : List Expr) : ∀ token ∈ moreTokens es, token.Spelled := by
  match es with
  | [] => nofun
  | e :: es =>
      simp only [moreTokens, List.forall_mem_cons, List.forall_mem_append]
      exact ⟨rfl, spelled_tokens e, spelled_moreTokens es⟩

end

end Expr

/-! ## Evaluation of printed text -/

/-- The text of the tokens of a tree evaluates to what the tree means. -/
theorem evaluate_spell (env : Env) {e : Expr} (hfits : e.Fits belowComparisons)
    (hnesting : e.nesting < expressionDepthLimit) :
    evaluateExpression env (spell e.tokens) = e.eval env := by
  have htokens : tokenize (spell e.tokens) = .ok e.tokens :=
    tokenizeFrom_spell e.tokens e.spelled_tokens none
  have hreads : Reads env 1 _ _ e.tokens (e.eval env) := e.reads hfits 1 (by omega)
  have hparse := hreads.expression (by decide) (show Ends [] from nofun)
  rw [List.append_nil] at hparse
  have hresult := hparse (20 * e.tokens.length + 20) (by omega)
  simp only [evaluateExpression, htokens, Bind.bind, Except.bind, hresult]
  cases e.eval env with
  | ok value => rfl
  | error error => rfl

/-- **Precedence.** Printed with the parentheses it needs where `in` stands below the comparisons, a
tree within the depth limit evaluates to its value or its error. -/
theorem evaluate_print (env : Env) (e : Expr)
    (hnesting : (e.parenthesized belowComparisons).nesting < expressionDepthLimit) :
    evaluateExpression env (e.print belowComparisons) = e.eval env := by
  rw [Expr.print, evaluate_spell env (e.fits_parenthesized (by decide) (by decide)) hnesting,
    e.eval_parenthesized]

/-! ## `in` among the comparisons -/

/-- No variables, and functions that return nothing. -/
def emptyEnv : Env where
  host := plainRuntime
  scope := .map none .objectPrototype []
  stdlib _ _ := .ok .null

theorem constant_true : constant (js "true") = some (.bool true) := rfl

/-- Whether a list has an element is compared with `true`. -/
def memberIsTrue : Expr :=
  .binary .eq (.contains (.string "a") (.list [.string "a"]))
    (.constant ⟨"true", .bool true, constant_true⟩)

/-- The parentheses that a place among the comparisons asks for are not enough. -/
theorem memberIsTrue_among_comparisons :
    (memberIsTrue.parenthesized amongComparisons).nesting < expressionDepthLimit ∧
      memberIsTrue.print amongComparisons = js "\"a\" in [ \"a\" ] == true" ∧
      memberIsTrue.eval emptyEnv = .ok (.bool true) ∧
      evaluateExpression emptyEnv (memberIsTrue.print amongComparisons) =
        .error (workflowError "Cannot compare object with boolean" "TypeError") := by
  refine ⟨by decide +kernel, by decide +kernel, rfl, rfl⟩

/-- With those below the comparisons it is read as it is. -/
theorem memberIsTrue_below_comparisons :
    (memberIsTrue.parenthesized belowComparisons).nesting < expressionDepthLimit ∧
      evaluateExpression emptyEnv (memberIsTrue.print belowComparisons) = .ok (.bool true) :=
  have hnesting : (memberIsTrue.parenthesized belowComparisons).nesting < expressionDepthLimit := by
    decide +kernel
  ⟨hnesting, evaluate_print emptyEnv memberIsTrue hnesting⟩

end Kinglet.Workflows
