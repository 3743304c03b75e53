import Kinglet.Js.Words
import Kinglet.Workflows.Soundness
import Kinglet.Workflows.Spelling

/-!
# The text of workflow expressions

How the tokens of the grammar are spelled: literals are closed, numbers have one point at most with
digits on both sides, and words and numbers are as long as they can be. The tokenizer reads a text
that is spelled so and rejects one with another code unit. It also reads literals that are not closed
and other runs of digits and points; of a text with one of these nothing is said.
-/

namespace Kinglet.Workflows

open Js Library

/-! ## Tokens in a text -/

/-- The body of a closed literal and its value. -/
inductive Literal (quote : UInt16) : JsString → JsString → Prop
  | nil : Literal quote [] []
  | unit {u : UInt16} {body value : JsString} (hquote : u ≠ quote) (hescape : u ≠ Js.unit '\\')
      (hrest : Literal quote body value) : Literal quote (u :: body) (u :: value)
  | escape {e : UInt16} {body value : JsString} (hrest : Literal quote body value) :
      Literal quote (Js.unit '\\' :: e :: body) (unescape e :: value)

/-- The text from after a quote that is never closed. -/
inductive Unclosed (quote : UInt16) : JsString → Prop
  | nil : Unclosed quote []
  | backslash : Unclosed quote [Js.unit '\\']
  | unit {u : UInt16} {body : JsString} (hquote : u ≠ quote) (hescape : u ≠ Js.unit '\\')
      (hrest : Unclosed quote body) : Unclosed quote (u :: body)
  | escape {e : UInt16} {body : JsString} (hrest : Unclosed quote body) :
      Unclosed quote (Js.unit '\\' :: e :: body)

def isQuote (u : UInt16) : Bool := u = unit '"' || u = unit '\''

/-- `/^[0-9]+(\.[0-9]+)?$/`. -/
def isNumber (text : JsString) : Bool :=
  match text.takeWhile isDigit, text.dropWhile isDigit with
  | [], _ => false
  | _, [] => true
  | _, u :: fraction => u = 46 && !fraction.isEmpty && fraction.all isDigit

/-- The sign of a number, which is an operator after an operand. -/
def IsSign (previous : Option Token) (sign : JsString) : Prop :=
  sign = [] ∨ sign = [unit '-'] ∧ previous.all Token.isOperatorOrOpen

/-- No code unit with a property follows. -/
def Stops (p : UInt16 → Bool) (tail : JsString) : Prop := ∀ u ∈ tail.head?, p u = false

/-- The tokens of one character. -/
def singleMarks : List Token := [.lparen, .rparen, .lbracket, .rbracket, .dot, .comma]

/-- The text of a token that stands between a token and the rest of the text. -/
inductive Lexeme (previous : Option Token) : JsString → JsString → Token → Prop
  | string {quote : UInt16} {body value tail : JsString} (hquote : isQuote quote)
      (hbody : Literal quote body value) :
      Lexeme previous (quote :: (body ++ [quote])) tail ⟨.string, value⟩
  | number {sign text tail : JsString} (hsign : IsSign previous sign) (hnumber : isNumber text)
      (hstops : Stops isNumberPart tail) : Lexeme previous (sign ++ text) tail ⟨.number, sign ++ text⟩
  | word {u : UInt16} {rest tail : JsString} (hstart : isIdentStart u) (hrest : ∀ c ∈ rest, isWord c)
      (hstops : Stops isWord tail) : Lexeme previous (u :: rest) tail (wordToken (u :: rest))
  | twoCharacters {two tail : JsString} (htwo : isTwoCharacterOperator two) :
      Lexeme previous two tail ⟨.operator, two⟩
  | oneCharacter {u : UInt16} {tail : JsString} (hone : isOneCharacterOperator u)
      (htwo : ¬ isTwoCharacterOperator (u :: tail.take 1))
      (hsign : ¬ isNegativeNumber previous u tail) : Lexeme previous [u] tail ⟨.operator, [u]⟩
  | mark {token : Token} {tail : JsString} (hmark : token ∈ singleMarks) :
      Lexeme previous token.value tail token

/-- A text is spelled of tokens, with white space between them. -/
inductive Lexes : Option Token → JsString → List Token → Prop
  | nil {previous : Option Token} : Lexes previous [] []
  | space {previous : Option Token} {u : UInt16} {rest : JsString} {tokens : List Token}
      (hspace : isSpace u) (hrest : Lexes previous rest tokens) : Lexes previous (u :: rest) tokens
  | token {previous : Option Token} {text tail : JsString} {token : Token} {tokens : List Token}
      (htoken : Lexeme previous text tail token) (hrest : Lexes (some token) tail tokens) :
      Lexes previous (text ++ tail) (token :: tokens)

/-- After tokens stands a literal that is not closed, or a run of digits and points that is no
number. -/
inductive Malformed : Option Token → JsString → Prop
  | string {previous : Option Token} {quote : UInt16} {body : JsString} (hquote : isQuote quote)
      (hunclosed : Unclosed quote body) : Malformed previous (quote :: body)
  | number {previous : Option Token} {sign text tail : JsString} (hsign : IsSign previous sign)
      (hrun : isNumeral text) (hstops : Stops isNumberPart tail) (hnumber : ¬ isNumber text) :
      Malformed previous (sign ++ text ++ tail)
  | space {previous : Option Token} {u : UInt16} {rest : JsString} (hspace : isSpace u)
      (hrest : Malformed previous rest) : Malformed previous (u :: rest)
  | later {previous : Option Token} {text tail : JsString} {token : Token}
      (htoken : Lexeme previous text tail token) (hrest : Malformed (some token) tail) :
      Malformed previous (text ++ tail)

/-! ## Literals -/

theorem quote_ne_backslash {quote : UInt16} (hquote : isQuote quote) : quote ≠ unit '\\' := by
  rintro rfl
  exact absurd hquote (by decide)

theorem readString_escaped {quote e : UInt16} (hquote : isQuote quote) (rest : JsString) :
    readString quote (unit '\\' :: e :: rest) =
      (unescape e :: (readString quote rest).1, (readString quote rest).2 + 2) := by
  rw [readString, if_neg (quote_ne_backslash hquote).symm, if_pos rfl]

theorem Literal.readString {quote : UInt16} {body value : JsString} (hquote : isQuote quote)
    (h : Literal quote body value) (tail : JsString) :
    Workflows.readString quote (body ++ quote :: tail) = (value, body.length + 1) := by
  induction h with
  | nil => cases tail <;> simp [Workflows.readString]
  | unit hne hescape _ ih => simp [readString_plain hne hescape, ih]
  | escape _ ih => simp [readString_escaped hquote, ih]

/-- A literal is closed or not. -/
theorem literal_or_unclosed (quote : UInt16) (text : JsString) :
    (∃ body value tail, text = body ++ quote :: tail ∧ Literal quote body value) ∨
      Unclosed quote text := by
  match text with
  | [] => exact .inr .nil
  | u :: rest =>
    by_cases hquote : u = quote
    · subst hquote
      exact .inl ⟨[], [], rest, rfl, .nil⟩
    · by_cases hescape : u = unit '\\'
      · subst hescape
        match rest with
        | [] => exact .inr .backslash
        | e :: rest =>
          obtain ⟨body, value, tail, rfl, h⟩ | h := literal_or_unclosed quote rest
          · exact .inl ⟨_, _, tail, rfl, .escape h⟩
          · exact .inr (.escape h)
      · obtain ⟨body, value, tail, rfl, h⟩ | h := literal_or_unclosed quote rest
        · exact .inl ⟨_, _, tail, rfl, .unit hquote hescape h⟩
        · exact .inr (.unit hquote hescape h)

/-! ## Numbers -/

theorem isNumberPart_of_isDigit {u : UInt16} (h : isDigit u) : isNumberPart u := by
  simp [isNumberPart, h]

/-- A number is a run of digits and points that starts with a digit. -/
theorem isNumeral_of_isNumber {text : JsString} (h : isNumber text) : isNumeral text := by
  have hdigits : ∀ u ∈ text.takeWhile isDigit, isDigit u := fun u hu => List.mem_takeWhile_imp hu
  have hsplit : text = text.takeWhile isDigit ++ text.dropWhile isDigit :=
    List.takeWhile_append_dropWhile.symm
  unfold isNumber at h
  generalize text.takeWhile isDigit = whole at h hdigits hsplit
  generalize text.dropWhile isDigit = rest at h hsplit
  cases whole with
  | nil => cases h
  | cons u whole =>
    have hrest : ∀ c ∈ rest, isNumberPart c := by
      cases rest with
      | nil => exact List.forall_mem_nil _
      | cons point fraction =>
        simp only [Bool.and_eq_true, decide_eq_true_eq, List.all_eq_true] at h
        obtain ⟨⟨rfl, -⟩, hfraction⟩ := h
        intro c hc
        rcases List.mem_cons.1 hc with rfl | hc
        · rfl
        · exact isNumberPart_of_isDigit (hfraction c hc)
    rw [hsplit]
    simp only [isNumeral, List.cons_append, List.head?_cons, Option.any_some, Bool.and_eq_true,
      List.all_eq_true]
    refine ⟨hdigits u List.mem_cons_self, fun c hc => ?_⟩
    rw [← List.cons_append] at hc
    rcases List.mem_append.1 hc with hc | hc
    · exact isNumberPart_of_isDigit (hdigits c hc)
    · exact hrest c hc

theorem exists_of_isNumeral {text : JsString} (h : isNumeral text) :
    ∃ u rest, text = u :: rest ∧ isDigit u ∧ ∀ c ∈ rest, isNumberPart c := by
  cases text with
  | nil => cases h
  | cons u rest =>
    simp only [isNumeral, List.head?_cons, Option.any_some, List.all_cons, Bool.and_eq_true,
      List.all_eq_true] at h
    exact ⟨u, rest, rfl, h.1, h.2.2⟩

/-! ## Reading tokens -/

theorem isQuote_of_isDigit {u : UInt16} (h : isDigit u) : isQuote u = false := by
  by_contra hquote
  simp only [isQuote, Bool.not_eq_false, Bool.or_eq_true, decide_eq_true_eq] at hquote
  rcases hquote with rfl | rfl
  · cases h
  · cases h

/-- A number, with a sign or without. -/
theorem readToken_number {previous : Option Token} {sign text tail : JsString}
    (hsign : IsSign previous sign) (hnumeral : isNumeral text) (hstops : Stops isNumberPart tail) :
    ∃ u body, sign ++ text = u :: body ∧ isSpace u = false ∧
      readToken previous u (body ++ tail) = some (⟨.number, sign ++ text⟩, body.length + 1) := by
  obtain ⟨u, rest, rfl, hdigit, hrest⟩ := exists_of_isNumeral hnumeral
  obtain rfl | ⟨rfl, hprevious⟩ := hsign
  · refine ⟨u, rest, rfl, isSpace_of_isDigit hdigit, ?_⟩
    have hquote := isQuote_of_isDigit hdigit
    simp only [isQuote, Bool.or_eq_false_iff, decide_eq_false_iff_not] at hquote
    simp [readToken, hquote, hdigit, takeWhile_append_of_head hrest hstops]
  · refine ⟨unit '-', u :: rest, rfl, by decide, ?_⟩
    have hall : ∀ c ∈ u :: rest, isNumberPart c :=
      List.forall_mem_cons.2 ⟨isNumberPart_of_isDigit hdigit, hrest⟩
    have hnegative : isNegativeNumber previous (unit '-') (u :: rest ++ tail) := by
      simp [isNegativeNumber, hdigit, hprevious]
    have hrun := takeWhile_append_of_head hall hstops
    have hquote : ¬ (unit '-' = unit '"' || unit '-' = unit '\'') := by decide
    rw [readToken, if_neg hquote, if_pos (Bool.or_eq_true_iff.2 (.inr hnegative)), hrun]
    rfl

theorem Lexeme.read {previous : Option Token} {text tail : JsString} {token : Token}
    (h : Lexeme previous text tail token) :
    ∃ u body, text = u :: body ∧ isSpace u = false ∧
      readToken previous u (body ++ tail) = some (token, body.length + 1) := by
  cases h with
  | @string quote body value _ hquote hbody =>
    refine ⟨quote, body ++ [quote], rfl, ?_, ?_⟩
    · simp only [isQuote, Bool.or_eq_true, decide_eq_true_eq] at hquote
      rcases hquote with rfl | rfl <;> decide
    · rw [List.append_assoc, List.singleton_append, readToken]
      have hquoted : quote = unit '"' || quote = unit '\'' := hquote
      rw [if_pos hquoted, hbody.readString hquote, List.length_append]
      rfl
  | number hsign hnumber hstops => exact readToken_number hsign (isNumeral_of_isNumber hnumber) hstops
  | @word u rest _ hstart hrest hstops =>
    refine ⟨u, rest, rfl, isSpace_of_isWord (by simp [isWord, hstart]), ?_⟩
    rw [readToken_word hstart, takeWhile_append_of_head hrest hstops]
  | twoCharacters htwo =>
    simp only [isTwoCharacterOperator, Bool.or_eq_true, decide_eq_true_eq] at htwo
    obtain ((rfl | rfl) | rfl) | rfl := htwo <;> exact ⟨_, _, rfl, by decide, rfl⟩
  | @oneCharacter u tail hone htwo hsign =>
    have hkinds : isQuote u = false ∧ isDigit u = false ∧ isSpace u = false := by
      simp only [isOneCharacterOperator, Bool.or_eq_true, decide_eq_true_eq] at hone
      obtain (((((rfl | rfl) | rfl) | rfl) | rfl) | rfl) | rfl := hone <;> decide
    obtain ⟨hquote, hdigit, hspace⟩ := hkinds
    refine ⟨u, [], rfl, hspace, ?_⟩
    have hquote : ¬ (u = unit '"' || u = unit '\'') := Bool.eq_false_iff.1 hquote
    have hnumber : ¬ (isDigit u || isNegativeNumber previous u tail) := by simp [hdigit, hsign]
    rw [List.nil_append, readToken, if_neg hquote, if_neg hnumber, if_neg htwo, if_pos hone]
    rfl
  | mark hmark =>
    simp only [singleMarks, List.mem_cons, List.not_mem_nil, or_false] at hmark
    obtain rfl | rfl | rfl | rfl | rfl | rfl := hmark <;> exact ⟨_, _, rfl, by decide, rfl⟩

/-- The token that the text starts with is read. -/
theorem Lexeme.tokenizeFrom {previous : Option Token} {text tail : JsString} {token : Token}
    (h : Lexeme previous text tail token) :
    Workflows.tokenizeFrom previous 0 (text ++ tail) =
      (Workflows.tokenizeFrom (some token) 0 tail).map (token :: ·) := by
  obtain ⟨u, body, rfl, hspace, hread⟩ := h.read
  rw [List.cons_append, Workflows.tokenizeFrom, hspace, hread]
  simp only [Bool.false_eq_true, if_false, Nat.add_sub_cancel, tokenizeFrom_skip]

theorem tokenizeFrom_space {previous : Option Token} {u : UInt16} {rest : JsString}
    (hspace : isSpace u) :
    tokenizeFrom previous 0 (u :: rest) = tokenizeFrom previous 0 rest := by
  rw [tokenizeFrom, if_pos hspace]

/-- A text that is spelled of tokens is cut into these. -/
theorem Lexes.tokenizeFrom {previous : Option Token} {text : JsString} {tokens : List Token}
    (h : Lexes previous text tokens) : Workflows.tokenizeFrom previous 0 text = .ok tokens := by
  induction h with
  | nil => rfl
  | space hspace _ ih => rw [tokenizeFrom_space hspace, ih]
  | token htoken _ ih =>
    rw [htoken.tokenizeFrom, ih]
    rfl

theorem stops_dropWhile (p : UInt16 → Bool) (text : JsString) : Stops p (text.dropWhile p) := by
  intro u hu
  have hhead := List.head?_dropWhile_not p text
  rw [hu] at hhead
  exact hhead

theorem isNumeral_takeWhile {u : UInt16} (hdigit : isDigit u) (rest : JsString) :
    isNumeral (u :: rest.takeWhile isNumberPart) := by
  simp only [isNumeral, List.head?_cons, Option.any_some, List.all_cons, Bool.and_eq_true,
    List.all_eq_true]
  exact ⟨hdigit, isNumberPart_of_isDigit hdigit, fun c hc => List.mem_takeWhile_imp hc⟩

/-- Where the tokenizer reads a number, a run of digits and points stands, perhaps with a sign. -/
theorem exists_run {previous : Option Token} {u : UInt16} {rest : JsString}
    (h : isDigit u || isNegativeNumber previous u rest) :
    ∃ sign text tail, u :: rest = sign ++ text ++ tail ∧ IsSign previous sign ∧ isNumeral text ∧
      Stops isNumberPart tail := by
  cases hdigit : isDigit u with
  | true =>
    refine ⟨[], u :: rest.takeWhile isNumberPart, rest.dropWhile isNumberPart, ?_, .inl rfl,
      isNumeral_takeWhile hdigit rest, stops_dropWhile isNumberPart rest⟩
    rw [List.nil_append, List.cons_append, List.takeWhile_append_dropWhile]
  | false =>
    rw [hdigit, Bool.false_or] at h
    simp only [isNegativeNumber, Bool.and_eq_true, decide_eq_true_eq] at h
    obtain ⟨⟨rfl, hnext⟩, hprevious⟩ := h
    cases rest with
    | nil => cases hnext
    | cons d rest =>
      refine ⟨[unit '-'], d :: rest.takeWhile isNumberPart, rest.dropWhile isNumberPart, ?_,
        .inr ⟨rfl, hprevious⟩, isNumeral_takeWhile hnext rest, stops_dropWhile isNumberPart rest⟩
      simp

theorem exists_mark {u : UInt16} (h : u ∈ ([40, 41, 91, 93, 46, 44] : JsString)) :
    ∃ token ∈ singleMarks, token.value = [u] := by
  simp only [List.mem_cons, List.not_mem_nil, or_false] at h
  obtain rfl | rfl | rfl | rfl | rfl | rfl := h
  · exact ⟨.lparen, by simp [singleMarks], rfl⟩
  · exact ⟨.rparen, by simp [singleMarks], rfl⟩
  · exact ⟨.lbracket, by simp [singleMarks], rfl⟩
  · exact ⟨.rbracket, by simp [singleMarks], rfl⟩
  · exact ⟨.dot, by simp [singleMarks], rfl⟩
  · exact ⟨.comma, by simp [singleMarks], rfl⟩

/-- The first token of a text is spelled well, or is not, or there is none. -/
theorem lexeme_cases (previous : Option Token) (u : UInt16) (rest : JsString) :
    (∃ text tail token, u :: rest = text ++ tail ∧ text ≠ [] ∧ Lexeme previous text tail token) ∨
      Malformed previous (u :: rest) ∨ readToken previous u rest = none := by
  unfold readToken
  split
  case isTrue hquote =>
    obtain ⟨body, value, tail, rfl, hbody⟩ | hunclosed := literal_or_unclosed u rest
    · refine .inl ⟨u :: (body ++ [u]), tail, _, ?_, List.cons_ne_nil _ _, .string hquote hbody⟩
      simp
    · exact .inr (.inl (.string hquote hunclosed))
  case isFalse =>
    split
    case isTrue hnumber =>
      obtain ⟨sign, text, tail, htext, hsign, hrun, hstops⟩ := exists_run hnumber
      rw [htext]
      by_cases hvalid : isNumber text
      · refine .inl ⟨sign ++ text, tail, _, rfl, ?_, .number hsign hvalid hstops⟩
        obtain ⟨d, digits, rfl, -⟩ := exists_of_isNumeral hrun
        simp
      · exact .inr (.inl (.number hsign hrun hstops hvalid))
    case isFalse hnumber =>
      split
      case isTrue htwo =>
        refine .inl ⟨u :: rest.take 1, rest.drop 1, _, ?_, List.cons_ne_nil _ _, .twoCharacters htwo⟩
        rw [List.cons_append, List.take_append_drop]
      case isFalse htwo =>
        simp only [Bool.or_eq_true, not_or] at hnumber
        split
        case isTrue hone =>
          exact .inl ⟨[u], rest, _, rfl, List.cons_ne_nil _ _, .oneCharacter hone htwo hnumber.2⟩
        case isFalse =>
          by_cases hstart : isIdentStart u
          · refine .inl ⟨u :: rest.takeWhile isWord, rest.dropWhile isWord, _, ?_,
              List.cons_ne_nil _ _,
              .word hstart (fun c hc => List.mem_takeWhile_imp hc) (stops_dropWhile isWord rest)⟩
            rw [List.cons_append, List.takeWhile_append_dropWhile]
          · by_cases hmark : u ∈ ([40, 41, 91, 93, 46, 44] : JsString)
            · obtain ⟨token, hmem, hvalue⟩ := exists_mark hmark
              refine .inl ⟨token.value, rest, token, ?_, ?_, .mark hmem⟩
              · rw [hvalue, List.singleton_append]
              · rw [hvalue]
                exact List.cons_ne_nil _ _
            · simp only [List.mem_cons, List.not_mem_nil, or_false, not_or] at hmark
              simp [hmark, hstart]

/-- The error about a code unit that starts no token. -/
def unexpectedCharacter (u : UInt16) : Failure :=
  workflowError (js "Unexpected character in expression: '" ++ u :: js "'") "ValueError"

/-- A text is spelled of tokens, or has a literal or a number that is not well formed, or is rejected
by the tokenizer. -/
theorem lexes_or (previous : Option Token) (text : JsString) :
    (∃ tokens, Lexes previous text tokens) ∨ Malformed previous text ∨
      ∃ u, tokenizeFrom previous 0 text = .error (unexpectedCharacter u) := by
  induction hlength : text.length using Nat.strong_induction_on generalizing previous text with
  | _ length ih =>
  cases text with
  | nil => exact .inl ⟨[], .nil⟩
  | cons u rest =>
    cases hspace : isSpace u with
    | true =>
      have hless : rest.length < length := by rw [← hlength]; exact Nat.lt_succ_self _
      obtain ⟨tokens, h⟩ | h | ⟨c, h⟩ := ih _ hless previous rest rfl
      · exact .inl ⟨tokens, .space hspace h⟩
      · exact .inr (.inl (.space hspace h))
      · exact .inr (.inr ⟨c, (tokenizeFrom_space hspace).trans h⟩)
    | false =>
      obtain ⟨text, tail, token, htext, hne, htoken⟩ | hmalformed | hnone :=
        lexeme_cases previous u rest
      · have hpos := List.length_pos_iff.2 hne
        have hless : tail.length < length := by
          rw [← hlength, htext, List.length_append]
          omega
        rw [htext]
        obtain ⟨tokens, h⟩ | h | ⟨c, h⟩ := ih _ hless (some token) tail rfl
        · exact .inl ⟨token :: tokens, .token htoken h⟩
        · exact .inr (.inl (.later htoken h))
        · refine .inr (.inr ⟨c, ?_⟩)
          rw [htoken.tokenizeFrom, h]
          rfl
      · exact .inr (.inl hmalformed)
      · refine .inr (.inr ⟨u, ?_⟩)
        rw [tokenizeFrom, hspace, hnone]
        rfl

/-- Dots and commas are tokens of one character. -/
theorem Lexeme.punctuated {previous : Option Token} {text tail : JsString} {token : Token}
    (h : Lexeme previous text tail token) :
    (token.type = .dot → token = .dot) ∧ (token.type = .comma → token = .comma) := by
  cases h with
  | string | number | twoCharacters | oneCharacter => exact ⟨nofun, nofun⟩
  | word =>
    unfold wordToken
    split <;> exact ⟨nofun, nofun⟩
  | mark hmark =>
    simp only [singleMarks, List.mem_cons, List.not_mem_nil, or_false] at hmark
    obtain rfl | rfl | rfl | rfl | rfl | rfl := hmark <;> decide

theorem Lexes.punctuated {previous : Option Token} {text : JsString} {tokens : List Token}
    (h : Lexes previous text tokens) : Punctuated tokens := by
  induction h with
  | nil => exact List.forall_mem_nil _
  | space _ _ ih => exact ih
  | token htoken _ ih => exact List.forall_mem_cons.2 ⟨htoken.punctuated, ih⟩

/-! ## The grammar -/

/-- The text is an expression with this meaning, within the depth limit. -/
def InGrammar (text : JsString) (meaning : Env → Except Failure Value) : Prop :=
  ∃ tokens rank bare nesting, Lexes none text tokens ∧ Derives rank bare nesting tokens meaning ∧
    nesting < expressionDepthLimit

/-- The parser reads the tokens of such a text to their end. -/
theorem InGrammar.parse {text : JsString} {meaning : Env → Except Failure Value}
    (h : InGrammar text meaning) (env : Env) :
    ∃ tokens, tokenize text = .ok tokens ∧
      parseExpression env (20 * tokens.length + 20) 0 tokens =
        FuelParser.after (meaning env) fun value => .ok value [] := by
  obtain ⟨tokens, rank, bare, nesting, hlexes, e, hnesting⟩ := h
  refine ⟨tokens, hlexes.tokenizeFrom, ?_⟩
  have hreads : Reads env 1 rank bare tokens (meaning env) := e.reads 1 (by omega)
  have hparse := hreads.expression (by decide) (show Ends [] from nofun)
  rw [List.append_nil] at hparse
  exact hparse (20 * tokens.length + 20) (by omega)

theorem InGrammar.evaluate {text : JsString} {meaning : Env → Except Failure Value}
    (h : InGrammar text meaning) (env : Env) : evaluateExpression env text = meaning env := by
  obtain ⟨tokens, htokens, hparse⟩ := h.parse env
  simp only [evaluateExpression, htokens, Bind.bind, Except.bind, hparse]
  cases meaning env with
  | ok value => rfl
  | error error => rfl

/-- **Soundness of the grammar.** A text of the grammar evaluates to what it means. In every scope,
another text without a malformed literal or number is rejected: with a syntax error, the error about
nesting, or the error that a part of its tokens means. -/
theorem evaluateExpression_grammar (env : Env) (text : JsString) :
    (∀ meaning, InGrammar text meaning → evaluateExpression env text = meaning env) ∧
    ((¬ ∃ meaning, InGrammar text meaning) → ¬ Malformed none text →
      ∃ failure, evaluateExpression env text = .error failure ∧
        (SyntaxError failure ∨ failure = tooDeep ∨
          ∃ tokens, Lexes none text tokens ∧ RaisedIn env tokens failure)) := by
  refine ⟨fun meaning h => h.evaluate env, fun hoff hwell => ?_⟩
  obtain ⟨tokens, hlexes⟩ | hmalformed | ⟨u, hfails⟩ := lexes_or none text
  · obtain ⟨rank, bare, nesting, meaning, e, hnesting, -⟩ | ⟨failure, hfails, hrejects⟩ :=
      evaluate_of_tokenize env hlexes.tokenizeFrom hlexes.punctuated
    · exact absurd ⟨meaning, tokens, rank, bare, nesting, hlexes, e, hnesting⟩ hoff
    · refine ⟨failure, hfails, ?_⟩
      cases hrejects with
      | syntaxError h => exact .inl h
      | nesting h => exact .inr (.inl h)
      | raised h => exact .inr (.inr ⟨tokens, hlexes, h⟩)
  · exact absurd hmalformed hwell
  · refine ⟨unexpectedCharacter u, ?_, .inl (.unexpectedCharacter u)⟩
    have htokens : tokenize text = .error (unexpectedCharacter u) := hfails
    simp only [evaluateExpression, htokens, Bind.bind, Except.bind]

theorem SyntaxError.exists_message {failure : Failure} (h : SyntaxError failure) :
    ∃ message, failure = workflowError message "ValueError" := by
  cases h with
  | unexpectedCharacter | unexpectedEnd | expected | unexpectedToken | trailingToken =>
    exact ⟨_, rfl⟩

/-- One variable, which is null. -/
def nullEnv : Env := { emptyEnv with scope := .map none .objectPrototype [(js "x", .null)] }

/-- An unknown variable before a parenthesis too many: where it is known, that is left over. -/
theorem not_inGrammar_extraParenthesis : ¬ ∃ meaning, InGrammar (js "x )") meaning := by
  rintro ⟨meaning, h⟩
  obtain ⟨tokens, htokens, hparse⟩ := h.parse nullEnv
  have hread : tokenize (js "x )") = .ok [⟨.identifier, js "x"⟩, .rparen] := rfl
  rw [hread] at htokens
  obtain rfl := Except.ok.inj htokens
  have hleft : parseExpression nullEnv (20 * 2 + 20) 0 [⟨.identifier, js "x"⟩, .rparen] =
      .ok .null [.rparen] := rfl
  rw [show [(⟨.identifier, js "x"⟩ : Token), .rparen].length = 2 from rfl, hleft] at hparse
  cases hmeaning : meaning nullEnv with
  | ok value =>
    rw [hmeaning] at hparse
    cases hparse
  | error error =>
    rw [hmeaning] at hparse
    cases hparse

/-- The error about the variable comes first. -/
theorem not_evaluateExpression_syntaxError :
    ¬ ∀ env text, (¬ ∃ meaning, InGrammar text meaning) →
      ∃ failure, evaluateExpression env text = .error failure ∧ SyntaxError failure := by
  intro hall
  obtain ⟨failure, hfails, hsyntax⟩ := hall emptyEnv (js "x )") not_inGrammar_extraParenthesis
  have hkey : evaluateExpression emptyEnv (js "x )") =
      .error (workflowError "Variable not found: 'x'" "KeyError") := rfl
  obtain ⟨message, rfl⟩ := hsyntax.exists_message
  rw [hkey] at hfails
  simp only [workflowError, Except.error.injEq, Failure.workflow.injEq, Value.list.injEq,
    List.cons.injEq, Value.str.injEq] at hfails
  exact absurd hfails.2.1.2.1 (by decide)

end Kinglet.Workflows
