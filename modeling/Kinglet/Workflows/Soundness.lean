import Kinglet.Workflows.Precedence

/-!
# What the parser of expressions accepts

Each method of the parser, on whatever tokens: when it returns, the tokens it has read are of the
grammar and mean the value, and when it fails, the error is one of its own or that of a part of the
tokens that the grammar derives. One lemma for each method says so of one more unit of fuel, from all
of them with less.
-/

namespace Kinglet.Workflows

open Js Library Library.FuelParser

/-! ## Errors -/

/-- The errors about tokens that are not of the grammar. -/
inductive SyntaxError : Failure → Prop
  | unexpectedCharacter (u : UInt16) :
      SyntaxError (workflowError (js "Unexpected character in expression: '" ++ u :: js "'")
        "ValueError")
  | unexpectedEnd : SyntaxError endOfExpression
  | expected (type : TokenType) (value : JsString) (t : Token) :
      SyntaxError (workflowError (js "Expected " ++ type.text ++
        (if value = [] then [] else js " '" ++ value ++ js "'") ++ js ", got " ++ t.type.text ++
        js " '" ++ t.value ++ js "'") "ValueError")
  | unexpectedToken (t : Token) :
      SyntaxError (workflowError (js "Unexpected token: " ++ t.type.text ++ js " '" ++ t.value ++
        js "'") "ValueError")
  | trailingToken (t : Token) :
      SyntaxError (workflowError (js "Unexpected token: " ++ t.value) "ValueError")

/-- The error about an expression that is nested too deep. -/
def tooDeep : Failure :=
  workflowError "Expression nesting depth limit exceeded (max 100)" "RecursionError"

/-- An error that a part of the tokens means. A method is called on a value before its arguments are
read. -/
inductive RaisedIn (env : Env) (tokens : List Token) (failure : Failure) : Prop
  | phrase {rank nesting : ℕ} {bare : Bool} {part : List Token}
      {meaning : Env → Except Failure Value} (e : Derives rank bare nesting part meaning)
      (hpart : part <:+: tokens) (hfails : meaning env = .error failure)
  | method {rank nesting : ℕ} {part : List Token} {meaning : Env → Except Failure Value}
      {value : Value} {name : JsString} (e : Derives rank false nesting part meaning)
      (hpart : part ++ [.dot, ⟨.identifier, name⟩, .lparen] <:+: tokens)
      (hvalue : meaning env = .ok value) (hfails : methodName value name = .error failure)

/-- Why the tokens of a text may be rejected. -/
inductive Rejects (env : Env) (tokens : List Token) (failure : Failure) : Prop
  | syntaxError (h : SyntaxError failure)
  | nesting (h : failure = tooDeep)
  | raised (h : RaisedIn env tokens failure)

/-- Dots and commas are spelled one way. -/
def Punctuated (tokens : List Token) : Prop :=
  ∀ token ∈ tokens, (token.type = .dot → token = .dot) ∧ (token.type = .comma → token = .comma)

/-! ## What is read -/

/-- The tokens before are an expression of at least a rank with this value; where it is a bare name,
no call of a module follows. -/
def Stands (env : Env) (depth least : ℕ) (before : List Token) (value : Value)
    (rest : List Token) : Prop :=
  ∃ rank bare nesting meaning, Derives rank bare nesting before meaning ∧ least ≤ rank ∧
    depth + nesting ≤ expressionDepthLimit ∧ meaning env = .ok value ∧
    (bare = true → namespacedCall rest = none)

/-- Some more tokens are read, after which those before and these are such an expression. -/
def Parses (env : Env) (depth least : ℕ) (before tokens : List Token) (value : Value)
    (rest : List Token) : Prop :=
  ∃ read, tokens = read ++ rest ∧ Stands env depth least (before ++ read) value rest

/-- Items are read. -/
def ParsesItems (env : Env) (depth : ℕ) (tokens : List Token) (values : List Value)
    (rest : List Token) : Prop :=
  ∃ read nesting meanings, tokens = read ++ rest ∧ DerivesItems nesting read meanings ∧
    depth + nesting ≤ expressionDepthLimit ∧ meanings env = .ok values

/-- Items behind commas are read. -/
def ParsesMore (env : Env) (depth : ℕ) (tokens : List Token) (values : List Value)
    (rest : List Token) : Prop :=
  ∃ read nesting meanings, tokens = read ++ rest ∧ DerivesMore nesting read meanings ∧
    depth + nesting ≤ expressionDepthLimit ∧ meanings env = .ok values

section Reading

variable {env : Env} {depth least least' : ℕ} {before tokens read rest all : List Token}
  {value : Value}

theorem Stands.mono (h : Stands env depth least before value rest) (hle : least' ≤ least) :
    Stands env depth least' before value rest := by
  obtain ⟨rank, bare, nesting, meaning, e, hrank, hrest⟩ := h
  exact ⟨rank, bare, nesting, meaning, e, hle.trans hrank, hrest⟩

/-- What stands has at least one token. -/
theorem Stands.depth_le (h : Stands env depth least before value rest) :
    depth ≤ expressionDepthLimit := by
  obtain ⟨_, _, _, _, _, _, hdepth, _⟩ := h
  omega

/-- Nothing more is read. -/
theorem Stands.parses (h : Stands env depth least before value tokens) :
    Parses env depth least before tokens value tokens := by
  refine ⟨[], rfl, ?_⟩
  rw [List.append_nil]
  exact h

/-- Some tokens are read, then others. -/
theorem Parses.prepend (h : Parses env depth least (before ++ read) tokens value rest) :
    Parses env depth least before (read ++ tokens) value rest := by
  obtain ⟨more, rfl, hstands⟩ := h
  refine ⟨read ++ more, (List.append_assoc read more rest).symm, ?_⟩
  rw [← List.append_assoc]
  exact hstands

/-- A node of the tree over some tokens, with what comes of its operation. -/
def Means (env : Env) (depth rank : ℕ) (tokens : List Token) (result : Except Failure Value) : Prop :=
  ∃ nesting meaning, Derives rank false nesting tokens meaning ∧
    depth + nesting ≤ expressionDepthLimit ∧ meaning env = result

theorem Means.stands {rank : ℕ} (h : Means env depth rank tokens (.ok value)) :
    Stands env depth rank tokens value rest := by
  obtain ⟨nesting, meaning, e, hdepth, hvalue⟩ := h
  exact ⟨rank, false, nesting, meaning, e, le_rfl, hdepth, hvalue, nofun⟩

theorem Means.rejects {rank : ℕ} {failure : Failure} (h : Means env depth rank tokens (.error failure))
    (hpart : tokens <:+: all) : Rejects env all failure := by
  obtain ⟨nesting, meaning, e, -, hfails⟩ := h
  exact .raised (.phrase e hpart hfails)

theorem exists_cons_of_head? {token : Token} (h : tokens.head? = some token) :
    ∃ rest, tokens = token :: rest :=
  ⟨tokens.tail, List.eq_cons_of_mem_head? h⟩

theorem suffix_of_append (h : before ++ tokens <:+ all) : tokens <:+ all :=
  (List.suffix_append before tokens).trans h

theorem infix_of_append (h : before ++ tokens <:+ all) : before <:+: all :=
  (List.prefix_append before tokens).isInfix.trans h.isInfix

theorem suffix_of_cons {token : Token} (h : token :: tokens <:+ all) : tokens <:+ all :=
  (List.suffix_cons token tokens).trans h

theorem Punctuated.dot (hall : Punctuated all) {token : Token} (h : token :: rest <:+ all)
    (htype : token.type = .dot) : token = .dot :=
  (hall token (h.subset List.mem_cons_self)).1 htype

theorem Punctuated.comma (hall : Punctuated all) {token : Token} (h : token :: rest <:+ all)
    (htype : token.type = .comma) : token = .comma :=
  (hall token (h.subset List.mem_cons_self)).2 htype

end Reading

/-! ## Primitive steps -/

section Primitives

variable {α β : Type} {tokens rest : List Token} {good : α → List Token → Prop}
  {after : β → List Token → Prop} {bad : Failure → Prop} {short : Prop}

theorem meets_peek {next : Option Token → Parser β}
    (h : Meets (next tokens.head?) tokens after bad short) :
    Meets (peek >>= next) tokens after bad short :=
  h

theorem meets_advance {token : Token} {next : Token → Parser β}
    (h : Meets (next token) rest after bad short) :
    Meets (advance >>= next) (token :: rest) after bad short :=
  h

theorem meets_lift {result : Except Failure α} (hok : ∀ value, result = .ok value → good value tokens)
    (herror : ∀ failure, result = .error failure → bad failure) :
    Meets (lift result) tokens good bad short := by
  cases result with
  | ok value => exact hok value rfl
  | error failure => exact herror failure rfl

theorem meets_lift_bind {result : Except Failure α} {next : α → Parser β}
    (hok : ∀ value, result = .ok value → Meets (next value) tokens after bad short)
    (herror : ∀ failure, result = .error failure → bad failure) :
    Meets (lift result >>= next) tokens after bad short := by
  cases result with
  | ok value => exact hok value rfl
  | error failure => exact herror failure rfl

/-- A token of a type is expected, perhaps with a value. -/
theorem meets_expect_bind {type : TokenType} {value : JsString} {next : Token → Parser β}
    (hok : ∀ found rest, tokens = ⟨type, found⟩ :: rest → (value = [] ∨ found = value) →
      Meets (next ⟨type, found⟩) rest after bad short)
    (herror : ∀ failure, SyntaxError failure → bad failure) :
    Meets (expect type value >>= next) tokens after bad short := by
  cases tokens with
  | nil => exact herror _ .unexpectedEnd
  | cons t rest =>
    by_cases hother : t.type ≠ type ∨ value ≠ [] ∧ t.value ≠ value
    · have hfails : expect type value (t :: rest) = .fail _ :=
        congrFun (if_pos hother) rest
      simp only [Meets, Bind.bind, hfails]
      exact herror _ (.expected type value t)
    · have hreads : expect type value (t :: rest) = .ok t rest :=
        congrFun (if_neg hother) rest
      simp only [not_or, not_and, not_not] at hother
      obtain ⟨rfl, hvalue⟩ := hother
      have hnext := hok t.value rest rfl
        ((Classical.em (value = [])).imp id fun hne => hvalue hne)
      simp only [Meets, Bind.bind, hreads]
      exact hnext

theorem exists_of_namespacedCall {method : JsString}
    (h : namespacedCall tokens = some (method, rest)) :
    ∃ dot, tokens = ⟨.dot, dot⟩ :: ⟨.identifier, method⟩ :: .lparen :: rest := by
  unfold namespacedCall at h
  split at h
  · split at h
    case isTrue htoken =>
      rw [htoken]
      cases h
      exact ⟨_, rfl⟩
    case isFalse => cases h
  · cases h

theorem meets_peekNamespaced {next : Option JsString → Parser β}
    (hsome : ∀ method rest, namespacedCall tokens = some (method, rest) →
      Meets (next (some method)) rest after bad short)
    (hnone : namespacedCall tokens = none → Meets (next none) tokens after bad short) :
    Meets (peekNamespaced >>= next) tokens after bad short := by
  simp only [Meets, Bind.bind, peekNamespaced]
  cases hcall : namespacedCall tokens with
  | none => exact hnone hcall
  | some call => exact hsome call.1 call.2 hcall

end Primitives

/-! ## Nodes -/

section Nodes

variable {env : Env} {depth : ℕ} {tokens tokens' rest rest' : List Token} {value value' : Value}

theorem Stands.binary (op : BinaryOp) (hleft : Stands env depth op.level.rank tokens value rest)
    (hright : Stands env depth (op.level.rank + 1) tokens' value' rest') :
    Means env depth op.level.rank (tokens ++ op.token :: tokens')
      (applyBinary env.host op value value') := by
  obtain ⟨_, _, nesting, meaning, e, hrank, hdepth, hvalue, -⟩ := hleft
  obtain ⟨_, _, nesting', meaning', e', hrank', hdepth', hvalue', -⟩ := hright
  refine ⟨_, _, .binary op e hrank e' hrank', by omega, ?_⟩
  rw [hvalue, hvalue']
  rfl

theorem Stands.not (h : Stands env depth 2 tokens value rest) :
    Means env depth 2 (.op "not" :: tokens) (.ok (applyNot value)) := by
  obtain ⟨_, _, nesting, meaning, e, hrank, hdepth, hvalue, -⟩ := h
  refine ⟨_, _, .not e hrank, hdepth, ?_⟩
  rw [hvalue]
  rfl

theorem Stands.negate (h : Stands env depth 7 tokens value rest) :
    Means env depth 7 (.op "-" :: tokens) (applyNegate env.host value) := by
  obtain ⟨_, _, nesting, meaning, e, hrank, hdepth, hvalue, -⟩ := h
  refine ⟨_, _, .negate e hrank, hdepth, ?_⟩
  rw [hvalue]
  rfl

theorem Stands.contains (hleft : Stands env depth 4 tokens value rest)
    (hright : Stands env depth 4 tokens' value' rest') :
    Means env depth 3 (tokens ++ .op "in" :: tokens') (applyIn env.host value value') := by
  obtain ⟨_, _, nesting, meaning, e, hrank, hdepth, hvalue, -⟩ := hleft
  obtain ⟨_, _, nesting', meaning', e', hrank', hdepth', hvalue', -⟩ := hright
  refine ⟨_, _, .contains e hrank e' hrank', by omega, ?_⟩
  rw [hvalue, hvalue']
  rfl

theorem Stands.member (h : Stands env depth 8 tokens value rest) (name : JsString) :
    Means env depth 8 (tokens ++ [.dot, ⟨.identifier, name⟩]) (getMember value name) := by
  obtain ⟨_, _, nesting, meaning, e, hrank, hdepth, hvalue, -⟩ := h
  refine ⟨_, _, .member e hrank name, hdepth, ?_⟩
  rw [hvalue]
  rfl

theorem Stands.index (h : Stands env depth 8 tokens value rest)
    (hkey : Stands env (depth + 1) 0 tokens' value' rest') :
    Means env depth 8 (tokens ++ .lbracket :: (tokens' ++ [.rbracket]))
      (getIndex env.host value value') := by
  obtain ⟨_, _, nesting, meaning, e, hrank, hdepth, hvalue, -⟩ := h
  obtain ⟨_, _, nesting', meaning', e', -, hdepth', hvalue', -⟩ := hkey
  refine ⟨_, _, .index e hrank e', by omega, ?_⟩
  rw [hvalue, hvalue']
  rfl

theorem Stands.paren (h : Stands env (depth + 1) 0 tokens value rest) :
    Means env depth 8 (.lparen :: (tokens ++ [.rparen])) (.ok value) := by
  obtain ⟨_, _, nesting, meaning, e, -, hdepth, hvalue, -⟩ := h
  exact ⟨_, _, .paren e, by omega, hvalue⟩

theorem Means.literal {token : Token}
    (e : Derives 8 false 0 [token] fun _ => .ok value) (hdepth : depth ≤ expressionDepthLimit) :
    Means env depth 8 [token] (.ok value) :=
  ⟨_, _, e, hdepth, rfl⟩

variable {values : List Value}

theorem ParsesItems.list (h : ParsesItems env depth tokens values (.rbracket :: rest)) :
    ∃ read, tokens = read ++ .rbracket :: rest ∧
      Means env depth 8 (.lbracket :: (read ++ [.rbracket])) (.ok (.list none values)) := by
  obtain ⟨read, nesting, meanings, htokens, items, hdepth, hvalues⟩ := h
  refine ⟨read, htokens, _, _, .list items, hdepth, ?_⟩
  rw [hvalues]
  rfl

theorem ParsesItems.call (h : ParsesItems env depth tokens values (.rparen :: rest)) {name : JsString}
    (hname : constant name = none) :
    ∃ read, tokens = read ++ .rparen :: rest ∧
      Means env depth 8 (⟨.identifier, name⟩ :: .lparen :: (read ++ [.rparen]))
        (env.stdlib name values) := by
  obtain ⟨read, nesting, meanings, htokens, items, hdepth, hvalues⟩ := h
  refine ⟨read, htokens, _, _, .call hname items, hdepth, ?_⟩
  rw [hvalues]
  rfl

theorem ParsesItems.moduleCall (h : ParsesItems env depth tokens values (.rparen :: rest))
    {name : JsString} (hname : constant name = none) (method : JsString) :
    ∃ read, tokens = read ++ .rparen :: rest ∧
      Means env depth 8
        (⟨.identifier, name⟩ :: .dot :: ⟨.identifier, method⟩ :: .lparen :: (read ++ [.rparen]))
        (env.stdlib (name ++ js "." ++ method) values) := by
  obtain ⟨read, nesting, meanings, htokens, items, hdepth, hvalues⟩ := h
  refine ⟨read, htokens, _, _, .moduleCall hname method items, hdepth, ?_⟩
  rw [hvalues]
  rfl

/-- Where a method call follows, no bare name stands before: it would be a call of a module. -/
theorem Stands.object {name : JsString}
    (h : Stands env depth 8 tokens value (.dot :: ⟨.identifier, name⟩ :: .lparen :: tokens')) :
    ∃ rank nesting meaning, Derives rank false nesting tokens meaning ∧ 8 ≤ rank ∧
      depth + nesting ≤ expressionDepthLimit ∧ meaning env = .ok value := by
  obtain ⟨rank, bare, nesting, meaning, e, hrank, hdepth, hvalue, hbare⟩ := h
  cases bare with
  | false => exact ⟨rank, nesting, meaning, e, hrank, hdepth, hvalue⟩
  | true => exact absurd (hbare rfl) (Option.some_ne_none (name, tokens'))

theorem ParsesItems.method (h : ParsesItems env depth tokens values (.rparen :: rest))
    {before : List Token} {name function : JsString}
    (hobject : Stands env depth 8 before value
      (.dot :: ⟨.identifier, name⟩ :: .lparen :: tokens))
    (hfunction : methodName value name = .ok function) :
    ∃ read, tokens = read ++ .rparen :: rest ∧
      Means env depth 8 (before ++ .dot :: ⟨.identifier, name⟩ :: .lparen :: (read ++ [.rparen]))
        (env.stdlib function values) := by
  obtain ⟨read, nesting, meanings, htokens, items, hdepth, hvalues⟩ := h
  obtain ⟨_, nesting', meaning, e, hrank, hdepth', hvalue⟩ := hobject.object
  refine ⟨read, htokens, _, _, .method e hrank name items, by omega, ?_⟩
  simp only [hvalue, Bind.bind, Except.bind, hfunction, hvalues]

end Nodes

/-- A step that computes what a node means: it fails like a part of the tokens, or the node stands. -/
theorem meets_means_bind {α : Type} {env : Env} {depth rank : ℕ} {part tokens all : List Token}
    {result : Except Failure Value} {next : Value → Parser α} {good : α → List Token → Prop}
    {short : Prop} (hmeans : Means env depth rank part result) (hall : part ++ tokens <:+ all)
    (hnext : ∀ value, Stands env depth rank part value tokens →
      Meets (next value) tokens good (Rejects env all) short) :
    Meets (lift result >>= next) tokens good (Rejects env all) short := by
  refine meets_lift_bind (fun value hvalue => hnext value ?_) fun failure hfails => ?_
  · rw [hvalue] at hmeans
    exact hmeans.stands
  · rw [hfails] at hmeans
    exact hmeans.rejects (infix_of_append hall)

/-- The last step of a method, which computes what the node just read means. -/
theorem meets_means {env : Env} {depth rank : ℕ} (before read : List Token) {rest all : List Token}
    {result : Except Failure Value} {short : Prop}
    (hmeans : Means env depth rank (before ++ read) result)
    (hall : before ++ (read ++ rest) <:+ all) :
    Meets (lift result) rest (Parses env depth rank before (read ++ rest)) (Rejects env all) short := by
  rw [← List.append_assoc] at hall
  refine meets_lift (fun value hvalue => ?_) fun failure hfails => ?_
  · rw [hvalue] at hmeans
    exact ⟨read, rfl, hmeans.stands⟩
  · rw [hfails] at hmeans
    exact hmeans.rejects (infix_of_append hall)

/-! ## Methods -/

/-- What the methods do with this much fuel on tokens at the end of these. -/
structure Reliable (env : Env) (all : List Token) (n : ℕ) : Prop where
  expression : ∀ {depth tokens}, tokens <:+ all →
    Meets (parseExpression env n depth) tokens (Parses env (depth + 1) 0 [] tokens)
      (Rejects env all) (n < 20 * tokens.length + 16)
  operand : ∀ {depth tokens} level, depth ≤ expressionDepthLimit → tokens <:+ all →
    Meets (parseOperand env n depth level) tokens (Parses env depth (level.rank + 1) [] tokens)
      (Rejects env all) (n < 20 * tokens.length + (offset (level.rank + 1) + 1))
  tail : ∀ {depth before value tokens} level, before ++ tokens <:+ all →
    Stands env depth level.rank before value tokens →
    Meets (parseBinaryTail env n depth level value) tokens (Parses env depth level.rank before tokens)
      (Rejects env all) (n < 20 * tokens.length + 1)
  rank : ∀ {depth tokens} rank, rank ≤ 8 → depth ≤ expressionDepthLimit → tokens <:+ all →
    Meets (parseRank env depth rank n) tokens (Parses env depth rank [] tokens)
      (Rejects env all) (n < 20 * tokens.length + offset rank)
  postfixTail : ∀ {depth before value tokens}, before ++ tokens <:+ all →
    Stands env depth 8 before value tokens →
    Meets (parsePostfixTail env n depth value) tokens (Parses env depth 8 before tokens)
      (Rejects env all) (n < 20 * tokens.length + 1)
  primary : ∀ {depth tokens}, depth ≤ expressionDepthLimit → tokens <:+ all →
    Meets (parsePrimary env n depth) tokens (Parses env depth 8 [] tokens)
      (Rejects env all) (n < 20 * tokens.length + 1)
  identifier : ∀ {depth tokens name}, depth ≤ expressionDepthLimit →
    ⟨.identifier, name⟩ :: tokens <:+ all →
    Meets (parseIdentifier env n depth name) tokens
      (Parses env depth 8 [⟨.identifier, name⟩] tokens) (Rejects env all)
      (n < 20 * tokens.length + 1)
  items : ∀ {depth tokens} close, depth ≤ expressionDepthLimit → tokens <:+ all →
    Meets (parseItems env n depth close) tokens (ParsesItems env depth tokens)
      (Rejects env all) (n < 20 * tokens.length + 17)
  argList : ∀ {depth tokens}, depth ≤ expressionDepthLimit → tokens <:+ all →
    Meets (parseArgList env n depth) tokens (ParsesItems env depth tokens)
      (Rejects env all) (n < 20 * tokens.length + 18)
  more : ∀ {depth tokens}, depth ≤ expressionDepthLimit → tokens <:+ all →
    Meets (parseMore env n depth) tokens (ParsesMore env depth tokens)
      (Rejects env all) (n < 20 * tokens.length + 1)

theorem offset_pos (rank : ℕ) : 0 < offset rank := by
  unfold offset
  split <;> omega

theorem offset_le (rank : ℕ) : offset rank ≤ 15 := by
  unfold offset
  split <;> omega

theorem BinaryLevel.exists_of_operator (level : BinaryLevel) {tokens : List Token} {op : BinaryOp}
    (hop : level.operator tokens.head? = some op) :
    ∃ rest, tokens = op.token :: rest ∧ level = op.level := by
  have hfound := List.find?_some hop
  simp only [Bool.and_eq_true, decide_eq_true_eq] at hfound
  obtain ⟨rfl, hhead⟩ := hfound
  exact ⟨tokens.tail, List.eq_cons_of_mem_head? hhead, rfl⟩

theorem parseRank_zero (env : Env) (depth rank : ℕ) : parseRank env depth rank 0 = exhausted := by
  unfold parseRank
  split <;> rfl

/-- Without fuel every method runs out. -/
theorem reliable_zero (env : Env) (all : List Token) : Reliable env all 0 where
  expression _ := meets_exhausted (by omega)
  operand _ _ _ := meets_exhausted (by omega)
  tail _ _ _ := meets_exhausted (by omega)
  rank rank _ _ _ := by
    have hoffset := offset_pos rank
    rw [parseRank_zero]
    exact meets_exhausted (by omega)
  postfixTail _ _ := meets_exhausted (by omega)
  primary _ _ := meets_exhausted (by omega)
  identifier _ _ := meets_exhausted (by omega)
  items _ _ _ := meets_exhausted (by omega)
  argList _ _ := meets_exhausted (by omega)
  more _ _ := meets_exhausted (by omega)

namespace Reliable

variable {env : Env} {all : List Token} {n depth : ℕ} {tokens before : List Token} {value : Value}

theorem expression_succ (h : Reliable env all n) (hall : tokens <:+ all) :
    Meets (parseExpression env (n + 1) depth) tokens (Parses env (depth + 1) 0 [] tokens)
      (Rejects env all) (n + 1 < 20 * tokens.length + 16) := by
  unfold parseExpression
  split
  case isTrue => exact meets_throw (.nesting rfl)
  case isFalse hlimit =>
    have hor := h.rank 0 (Nat.zero_le 8) (Nat.not_lt.1 hlimit) hall
    refine hor.mono (fun value rest hparses => hparses) fun hshort => ?_
    simp only [offset] at hshort
    omega

theorem operand_succ (h : Reliable env all n) (level : BinaryLevel)
    (hdepth : depth ≤ expressionDepthLimit) (hall : tokens <:+ all) :
    Meets (parseOperand env (n + 1) depth level) tokens (Parses env depth (level.rank + 1) [] tokens)
      (Rejects env all) (n + 1 < 20 * tokens.length + (offset (level.rank + 1) + 1)) := by
  have hrank : level.rank + 1 ≤ 8 := by cases level <;> decide
  rw [parseOperand_succ]
  exact (h.rank (level.rank + 1) hrank hdepth hall).mono (fun _ _ hparses => hparses) (by omega)

/-- A level reads its first operand and goes on with it. -/
theorem level_succ (h : Reliable env all n) (level : BinaryLevel)
    (hdepth : depth ≤ expressionDepthLimit) (hall : tokens <:+ all) :
    Meets (parseBinary env (n + 1) depth level) tokens (Parses env depth level.rank [] tokens)
      (Rejects env all) (n + 1 < 20 * tokens.length + offset level.rank) := by
  have hoffset := offset_level level
  have hpos := offset_pos (level.rank + 1)
  refine (h.operand level hdepth hall).bind ?_ (by omega)
  rintro left rest ⟨read, rfl, hstands⟩
  rw [List.nil_append] at hstands
  have htail := h.tail level hall (hstands.mono (Nat.le_succ level.rank))
  refine htail.mono (fun value rest hparses => hparses.prepend) fun hshort => ?_
  rw [List.length_append]
  omega

/-- Where an operator of the level follows, its right operand is read. -/
theorem tail_succ (h : Reliable env all n) (level : BinaryLevel) (hall : before ++ tokens <:+ all)
    (hstands : Stands env depth level.rank before value tokens) :
    Meets (parseBinaryTail env (n + 1) depth level value) tokens
      (Parses env depth level.rank before tokens) (Rejects env all)
      (n + 1 < 20 * tokens.length + 1) := by
  unfold parseBinaryTail
  apply meets_peek
  cases hop : level.operator tokens.head? with
  | none => exact meets_pure hstands.parses
  | some op =>
    obtain ⟨tokens, rfl, rfl⟩ := level.exists_of_operator hop
    have hoffset := offset_level op.level
    have hless : offset op.level.rank ≤ 15 := offset_le _
    have hrest : tokens <:+ all := suffix_of_cons (suffix_of_append hall)
    refine meets_advance ((h.operand op.level hstands.depth_le hrest).bind ?_ fun hshort => ?_)
    · rintro right rest ⟨read, rfl, hright⟩
      have hmeans := hstands.binary op hright
      have hpart : (before ++ op.token :: read) ++ rest <:+ all := by
        simpa only [List.append_assoc, List.cons_append] using hall
      refine meets_means_bind hmeans hpart fun result hresult => ?_
      refine (h.tail op.level hpart hresult).mono (fun _ _ hparses => hparses.prepend)
        fun hshort => ?_
      rw [List.length_cons, List.length_append]
      omega
    · rw [List.length_cons]
      omega

theorem not_succ (h : Reliable env all n) (hdepth : depth ≤ expressionDepthLimit)
    (hall : tokens <:+ all) :
    Meets (parseNot env (n + 1) depth) tokens (Parses env depth 2 [] tokens) (Rejects env all)
      (n + 1 < 20 * tokens.length + offset 2) := by
  unfold parseNot
  apply meets_peek
  split
  case isTrue hnext =>
    obtain ⟨tokens, rfl⟩ := exists_cons_of_head? hnext
    have hoperand := h.rank 2 (by decide) hdepth (suffix_of_cons hall)
    refine meets_advance (hoperand.bind ?_ fun hshort => ?_)
    · rintro value rest ⟨read, rfl, hstands⟩
      exact meets_pure ⟨.op "not" :: read, rfl, hstands.not.stands⟩
    · simp only [List.length_cons, offset] at hshort ⊢
      omega
  case isFalse =>
    refine (h.rank 3 (by decide) hdepth hall).mono ?_ fun hshort => ?_
    · rintro value rest ⟨read, rfl, hstands⟩
      exact ⟨read, rfl, hstands.mono (by decide)⟩
    · simp only [offset] at hshort ⊢
      omega

theorem in_succ (h : Reliable env all n) (hdepth : depth ≤ expressionDepthLimit)
    (hall : tokens <:+ all) :
    Meets (parseIn env (n + 1) depth) tokens (Parses env depth 3 [] tokens) (Rejects env all)
      (n + 1 < 20 * tokens.length + offset 3) := by
  have hoffset : offset 3 = offset 4 + 1 := rfl
  refine (h.rank 4 (by decide) hdepth hall).bind ?_ (by omega)
  rintro left rest ⟨read, rfl, hleft⟩
  apply meets_peek
  split
  case isTrue hnext =>
    obtain ⟨rest, rfl⟩ := exists_cons_of_head? hnext
    have hrest : rest <:+ all := suffix_of_cons (suffix_of_append hall)
    refine meets_advance ((h.rank 4 (by decide) hdepth hrest).bind ?_ fun hshort => ?_)
    · rintro right rest ⟨read', rfl, hright⟩
      have htokens : read ++ .op "in" :: (read' ++ rest) = (read ++ .op "in" :: read') ++ rest := by
        simp only [List.append_assoc, List.cons_append]
      rw [htokens] at hall ⊢
      exact meets_means [] _ (hleft.contains hright) hall
    · simp only [List.length_append, List.length_cons]
      omega
  case isFalse =>
    exact meets_pure ⟨read, rfl, hleft.mono (by decide)⟩

theorem unary_succ (h : Reliable env all n) (hdepth : depth ≤ expressionDepthLimit)
    (hall : tokens <:+ all) :
    Meets (parseUnary env (n + 1) depth) tokens (Parses env depth 7 [] tokens) (Rejects env all)
      (n + 1 < 20 * tokens.length + offset 7) := by
  unfold parseUnary
  apply meets_peek
  split
  case isTrue hnext =>
    obtain ⟨tokens, rfl⟩ := exists_cons_of_head? hnext
    have hoperand := h.rank 7 (by decide) hdepth (suffix_of_cons hall)
    refine meets_advance (hoperand.bind ?_ fun hshort => ?_)
    · rintro value rest ⟨read, rfl, hstands⟩
      exact meets_means [] (.op "-" :: read) hstands.negate hall
    · simp only [List.length_cons]
      omega
  case isFalse =>
    refine (h.rank 8 le_rfl hdepth hall).mono ?_ fun hshort => ?_
    · rintro value rest ⟨read, rfl, hstands⟩
      exact ⟨read, rfl, hstands.mono (by decide)⟩
    · simp only [offset] at hshort ⊢
      omega

theorem postfix_succ (h : Reliable env all n) (hdepth : depth ≤ expressionDepthLimit)
    (hall : tokens <:+ all) :
    Meets (parsePostfix env (n + 1) depth) tokens (Parses env depth 8 [] tokens) (Rejects env all)
      (n + 1 < 20 * tokens.length + offset 8) := by
  have hoffset : offset 8 = 2 := rfl
  refine (h.primary hdepth hall).bind ?_ (by omega)
  rintro value rest ⟨read, rfl, hstands⟩
  refine (h.postfixTail hall hstands).mono (fun _ _ hparses => hparses.prepend) fun hshort => ?_
  rw [List.length_append]
  omega

theorem rank_succ (h : Reliable env all n) (rank : ℕ) (hrank : rank ≤ 8)
    (hdepth : depth ≤ expressionDepthLimit) (hall : tokens <:+ all) :
    Meets (parseRank env depth rank (n + 1)) tokens (Parses env depth rank [] tokens)
      (Rejects env all) (n + 1 < 20 * tokens.length + offset rank) := by
  match rank with
  | 0 => exact h.level_succ .or hdepth hall
  | 1 => exact h.level_succ .and hdepth hall
  | 2 => exact h.not_succ hdepth hall
  | 3 => exact h.in_succ hdepth hall
  | 4 => exact h.level_succ .comparison hdepth hall
  | 5 => exact h.level_succ .addSub hdepth hall
  | 6 => exact h.level_succ .mulDiv hdepth hall
  | 7 => exact h.unary_succ hdepth hall
  | 8 => exact h.postfix_succ hdepth hall
  | rank + 9 => omega

/-- Items, once the first may be read. -/
theorem items_succ (h : Reliable env all n) (close : Token) (hdepth : depth ≤ expressionDepthLimit)
    (hall : tokens <:+ all) :
    Meets (parseItems env (n + 1) depth close) tokens (ParsesItems env depth tokens)
      (Rejects env all) (n + 1 < 20 * tokens.length + 17) := by
  unfold parseItems
  apply meets_peek
  split
  case isTrue => exact meets_pure ⟨[], 0, _, rfl, .none, hdepth, rfl⟩
  case isFalse =>
    refine (h.expression hall).bind ?_ (by omega)
    rintro first rest ⟨read, rfl, hfirst⟩
    refine (h.more hdepth (suffix_of_append hall)).bind ?_ fun hshort => ?_
    · rintro values rest ⟨read', nesting', meanings, rfl, more, hdepth', hvalues⟩
      obtain ⟨_, _, nesting, meaning, e, -, hdepth, hvalue, -⟩ := hfirst
      refine meets_pure ⟨read ++ read', _, _, (List.append_assoc read read' rest).symm,
        .some e more, by omega, ?_⟩
      rw [hvalue, hvalues]
      rfl
    · rw [List.length_append]
      omega

theorem argList_succ (h : Reliable env all n) (hdepth : depth ≤ expressionDepthLimit)
    (hall : tokens <:+ all) :
    Meets (parseArgList env (n + 1) depth) tokens (ParsesItems env depth tokens)
      (Rejects env all) (n + 1 < 20 * tokens.length + 18) :=
  (h.items .rparen hdepth hall).mono (fun _ _ hparses => hparses) (by omega)

theorem more_succ (h : Reliable env all n) (hcommas : Punctuated all)
    (hdepth : depth ≤ expressionDepthLimit) (hall : tokens <:+ all) :
    Meets (parseMore env (n + 1) depth) tokens (ParsesMore env depth tokens)
      (Rejects env all) (n + 1 < 20 * tokens.length + 1) := by
  unfold parseMore
  apply meets_peek
  split
  case isTrue hnext =>
    obtain ⟨token, hhead, htype⟩ := Option.map_eq_some_iff.1 hnext
    obtain ⟨tokens, rfl⟩ := exists_cons_of_head? hhead
    obtain rfl := hcommas.comma hall htype
    refine meets_advance ((h.expression (suffix_of_cons hall)).bind ?_ fun hshort => ?_)
    · rintro value rest ⟨read, rfl, hvalue⟩
      refine (h.more hdepth (suffix_of_append (suffix_of_cons hall))).bind ?_ fun hshort => ?_
      · rintro values rest ⟨read', nesting', meanings, rfl, more, hdepth', hvalues⟩
        obtain ⟨_, _, nesting, meaning, e, -, hdepth, hvalue, -⟩ := hvalue
        refine meets_pure ⟨.comma :: (read ++ read'), _, _, ?_, .some e more, by omega, ?_⟩
        · simp only [List.cons_append, List.append_assoc]
        · rw [hvalue, hvalues]
          rfl
      · rw [List.length_cons, List.length_append]
        omega
    · rw [List.length_cons]
      omega
  case isFalse => exact meets_pure ⟨[], 0, _, rfl, .none, hdepth, rfl⟩

/-- Arguments and the parenthesis that closes them. -/
theorem arguments (h : Reliable env all n) {α : Type} {next : List Value → Parser α}
    {good : α → List Token → Prop} {short : Prop} (hdepth : depth ≤ expressionDepthLimit)
    (hall : tokens <:+ all)
    (hnext : ∀ values rest, ParsesItems env depth tokens values (.rparen :: rest) →
      Meets (next values) rest good (Rejects env all) short)
    (hshort : n < 20 * tokens.length + 18 → short) :
    Meets (parseArgList env n depth >>= fun args => expect .paren [41] >>= fun _ => next args)
      tokens good (Rejects env all) short := by
  refine (h.argList hdepth hall).bind (fun values rest hparses => ?_) hshort
  refine meets_expect_bind (fun found rest hrest hfound => ?_) fun failure => .syntaxError
  obtain rfl := hfound.resolve_left (List.cons_ne_nil _ _)
  exact hnext values rest (hrest ▸ hparses)

theorem identifier_succ (h : Reliable env all n) {name : JsString} (hdots : Punctuated all)
    (hdepth : depth ≤ expressionDepthLimit) (hall : ⟨.identifier, name⟩ :: tokens <:+ all) :
    Meets (parseIdentifier env (n + 1) depth name) tokens
      (Parses env depth 8 [⟨.identifier, name⟩] tokens) (Rejects env all)
      (n + 1 < 20 * tokens.length + 1) := by
  unfold parseIdentifier
  cases hname : constant name with
  | some value =>
    have hmeans : Means env depth 8 [⟨.identifier, name⟩] (.ok value) :=
      .literal (.constant ⟨name, value, hname⟩) hdepth
    exact meets_pure (Stands.parses hmeans.stands)
  | none =>
    apply meets_peek
    split
    case isTrue hnext =>
      obtain ⟨tokens, rfl⟩ := exists_cons_of_head? hnext
      have hrest : tokens <:+ all := suffix_of_cons (suffix_of_cons hall)
      refine meets_advance (h.arguments hdepth hrest ?_ fun hshort => ?_)
      · rintro args rest hargs
        obtain ⟨read, rfl, hmeans⟩ := hargs.call hname
        rw [List.append_cons] at hall ⊢
        exact meets_means [⟨.identifier, name⟩] _ hmeans hall
      · rw [List.length_cons]
        omega
    case isFalse =>
      refine meets_peekNamespaced (fun method rest hcall => ?_) fun hnone => ?_
      · obtain ⟨dot, rfl⟩ := exists_of_namespacedCall hcall
        have hdot : (⟨.dot, dot⟩ : Token) = .dot := hdots.dot (suffix_of_cons hall) rfl
        rw [hdot] at hall ⊢
        have hrest : rest <:+ all :=
          suffix_of_cons (suffix_of_cons (suffix_of_cons (suffix_of_cons hall)))
        refine h.arguments hdepth hrest ?_ fun hshort => ?_
        · rintro args rest hargs
          obtain ⟨read, rfl, hmeans⟩ := hargs.moduleCall hname method
          rw [List.append_cons] at hall ⊢
          exact meets_means [⟨.identifier, name⟩] _ hmeans hall
        · simp only [List.length_cons]
          omega
      · have e : Derives 8 true 0 [⟨.identifier, name⟩] _ := .name hname
        have hpart : [⟨.identifier, name⟩] ++ tokens <:+ all := hall
        refine meets_lift (fun value hvalue => ?_) fun failure hfails => ?_
        · exact Stands.parses ⟨8, true, 0, _, e, le_rfl, hdepth, hvalue, fun _ => hnone⟩
        · exact .raised (.phrase e (infix_of_append hpart) hfails)

/-- The first token decides. -/
theorem primary_succ (h : Reliable env all n) (hdepth : depth ≤ expressionDepthLimit)
    (hall : tokens <:+ all) :
    Meets (parsePrimary env (n + 1) depth) tokens (Parses env depth 8 [] tokens) (Rejects env all)
      (n + 1 < 20 * tokens.length + 1) := by
  unfold parsePrimary
  apply meets_peek
  cases tokens with
  | nil => exact meets_throw (.syntaxError .unexpectedEnd)
  | cons token tokens =>
    have hrest : tokens <:+ all := suffix_of_cons hall
    have hother : Meets
        (if token = .lparen then do
          let _ ← advance
          let value ← parseExpression env n depth
          let _ ← expect .paren [41]
          return value
        else if token = .lbracket then do
          let _ ← advance
          let items ← parseItems env n depth .rbracket
          let _ ← expect .bracket [93]
          return .list none items
        else
          throw (workflowError (js "Unexpected token: " ++ token.type.text ++ js " '" ++
            token.value ++ js "'") "ValueError"))
        (token :: tokens) (Parses env depth 8 [] (token :: tokens)) (Rejects env all)
        (n + 1 < 20 * (token :: tokens).length + 1) := by
      split
      case isTrue htoken =>
        rw [htoken]
        refine meets_advance ((h.expression hrest).bind ?_ fun hshort => ?_)
        · rintro value rest ⟨read, rfl, hstands⟩
          refine meets_expect_bind (fun found rest hclose hfound => ?_) fun _ => .syntaxError
          obtain rfl := hfound.resolve_left (List.cons_ne_nil _ _)
          rw [hclose, List.append_cons]
          exact meets_pure ⟨.lparen :: (read ++ [Token.rparen]), rfl, hstands.paren.stands⟩
        · rw [List.length_cons]
          omega
      case isFalse =>
        split
        case isTrue htoken =>
          rw [htoken]
          refine meets_advance ((h.items .rbracket hdepth hrest).bind ?_ fun hshort => ?_)
          · intro values rest hitems
            refine meets_expect_bind (fun found rest hclose hfound => ?_) fun _ => .syntaxError
            obtain rfl := hfound.resolve_left (List.cons_ne_nil _ _)
            rw [hclose] at hitems
            obtain ⟨read, rfl, hmeans⟩ := hitems.list
            rw [List.append_cons]
            exact meets_pure ⟨.lbracket :: (read ++ [Token.rbracket]), rfl, hmeans.stands⟩
          · rw [List.length_cons]
            omega
        case isFalse => exact meets_throw (.syntaxError (.unexpectedToken token))
    match token with
    | ⟨.number, text⟩ =>
      exact meets_advance (meets_pure ⟨[_], rfl, (Means.literal (.number text) hdepth).stands⟩)
    | ⟨.string, text⟩ =>
      exact meets_advance (meets_pure ⟨[_], rfl, (Means.literal (.string text) hdepth).stands⟩)
    | ⟨.identifier, name⟩ =>
      refine meets_advance ((h.identifier hdepth hall).mono ?_ fun hshort => ?_)
      · intro value rest hparses
        have hread : Parses env depth 8 ([] ++ [⟨.identifier, name⟩]) tokens value rest := hparses
        exact hread.prepend
      · rw [List.length_cons]
        omega
    | ⟨.operator, _⟩ | ⟨.paren, _⟩ | ⟨.bracket, _⟩ | ⟨.dot, _⟩ | ⟨.comma, _⟩ => exact hother

/-- The loop over postfix operators goes on with the node it has just read. -/
theorem resume (h : Reliable env all n) {token : Token} {read rest : List Token}
    {result : Except Failure Value} {short : Prop}
    (hmeans : Means env depth 8 (before ++ token :: read) result)
    (hall : before ++ token :: (read ++ rest) <:+ all)
    (hshort : n < 20 * (read ++ rest).length + 1 → short) :
    Meets (lift result >>= parsePostfixTail env n depth) rest
      (Parses env depth 8 before (token :: (read ++ rest))) (Rejects env all) short := by
  have hpart : (before ++ token :: read) ++ rest <:+ all := by
    simpa only [List.append_assoc, List.cons_append] using hall
  refine meets_means_bind hmeans hpart fun result hresult => ?_
  refine (h.postfixTail hpart hresult).mono (fun _ _ hparses => hparses.prepend) fun hrest => ?_
  apply hshort
  rw [List.length_append]
  omega

/-- Each postfix operator is read with the token that starts it. -/
theorem postfixTail_succ (h : Reliable env all n) (hdots : Punctuated all)
    (hall : before ++ tokens <:+ all) (hstands : Stands env depth 8 before value tokens) :
    Meets (parsePostfixTail env (n + 1) depth value) tokens (Parses env depth 8 before tokens)
      (Rejects env all) (n + 1 < 20 * tokens.length + 1) := by
  have hdepth := hstands.depth_le
  have htokens : tokens <:+ all := suffix_of_append hall
  unfold parsePostfixTail
  apply meets_peek
  split
  case isTrue hnext =>
    obtain ⟨token, hhead, htype⟩ := Option.map_eq_some_iff.1 hnext
    obtain ⟨tokens, rfl⟩ := exists_cons_of_head? hhead
    obtain rfl := hdots.dot htokens htype
    refine meets_advance (meets_expect_bind (fun name rest hrest _ => ?_) fun _ => .syntaxError)
    subst hrest
    apply meets_peek
    split
    case isTrue hcall =>
      obtain ⟨rest, rfl⟩ := exists_cons_of_head? hcall
      refine meets_lift_bind (fun function hfunction => ?_) fun failure hfails => ?_
      · have hrest : rest <:+ all := suffix_of_cons (suffix_of_cons (suffix_of_cons htokens))
        refine meets_advance (h.arguments hdepth hrest ?_ fun hshort => ?_)
        · intro args rest hargs
          obtain ⟨read, rfl, hmeans⟩ := hargs.method hstands hfunction
          rw [List.append_cons read] at hall ⊢
          refine h.resume hmeans hall fun hshort => ?_
          simp only [List.length_cons, List.length_append, List.length_nil] at hshort ⊢
          omega
        · simp only [List.length_cons]
          omega
      · obtain ⟨_, _, _, e, -, -, hvalue⟩ := hstands.object
        have hpart : (before ++ [.dot, ⟨.identifier, name⟩, .lparen]) ++ rest <:+ all := by
          rw [List.append_assoc]
          exact hall
        exact .raised (.method e (infix_of_append hpart) hvalue hfails)
    case isFalse =>
      have hmeans : Means env depth 8 (before ++ .dot :: [⟨.identifier, name⟩]) _ :=
        hstands.member name
      refine h.resume hmeans hall fun hshort => ?_
      simp only [List.length_cons, List.length_append, List.length_nil] at hshort ⊢
      omega
  case isFalse =>
    split
    case isTrue hnext =>
      obtain ⟨tokens, rfl⟩ := exists_cons_of_head? hnext
      refine meets_advance ((h.expression (suffix_of_cons htokens)).bind ?_ fun hshort => ?_)
      · rintro key rest ⟨read, rfl, hkey⟩
        refine meets_expect_bind (fun found rest hclose hfound => ?_) fun _ => .syntaxError
        obtain rfl := hfound.resolve_left (List.cons_ne_nil _ _)
        rw [hclose, List.append_cons read] at hall ⊢
        refine h.resume (hstands.index hkey) hall fun hshort => ?_
        simp only [List.length_cons, List.length_append, List.length_nil] at hshort ⊢
        omega
      · rw [List.length_cons]
        omega
    case isFalse => exact meets_pure hstands.parses

theorem succ (h : Reliable env all n) (hall : Punctuated all) : Reliable env all (n + 1) where
  expression htokens := h.expression_succ htokens
  operand level hdepth htokens := h.operand_succ level hdepth htokens
  tail level htokens hstands := h.tail_succ level htokens hstands
  rank rank hrank hdepth htokens := h.rank_succ rank hrank hdepth htokens
  postfixTail htokens hstands := h.postfixTail_succ hall htokens hstands
  primary hdepth htokens := h.primary_succ hdepth htokens
  identifier hdepth htokens := h.identifier_succ hall hdepth htokens
  items close hdepth htokens := h.items_succ close hdepth htokens
  argList hdepth htokens := h.argList_succ hdepth htokens
  more hdepth htokens := h.more_succ hall hdepth htokens

end Reliable

/-- Whatever the fuel. -/
theorem reliable (env : Env) {all : List Token} (hall : Punctuated all) (n : ℕ) : Reliable env all n := by
  induction n with
  | zero => exact reliable_zero env all
  | succ n ih => exact ih.succ hall

/-! ## Whole texts -/

/-- Tokens that evaluate to a value are of the grammar and mean it; others are rejected. -/
theorem evaluate_of_tokenize (env : Env) {text : JsString} {tokens : List Token}
    (htokens : tokenize text = .ok tokens) (hpunctuated : Punctuated tokens) :
    (∃ rank bare nesting meaning, Derives rank bare nesting tokens meaning ∧
      nesting < expressionDepthLimit ∧ evaluateExpression env text = meaning env) ∨
    ∃ failure, evaluateExpression env text = .error failure ∧ Rejects env tokens failure := by
  have hreliable : Meets (parseExpression env (20 * tokens.length + 20) 0) tokens _ _ _ :=
    (reliable env hpunctuated _).expression List.suffix_rfl
  simp only [evaluateExpression, htokens, Bind.bind, Except.bind]
  cases hresult : parseExpression env (20 * tokens.length + 20) 0 tokens with
  | ok value rest =>
    obtain ⟨read, hread, rank, bare, nesting, meaning, e, -, hdepth, hvalue, -⟩ :=
      hreliable.of_ok hresult
    cases rest with
    | nil =>
      rw [List.append_nil] at hread
      subst hread
      exact .inl ⟨rank, bare, nesting, meaning, e, by omega, hvalue.symm⟩
    | cons token rest => exact .inr ⟨_, rfl, .syntaxError (.trailingToken token)⟩
  | fail failure => exact .inr ⟨failure, rfl, hreliable.of_fail hresult⟩
  | outOfFuel =>
    have hshort := hreliable.of_outOfFuel hresult
    omega

end Kinglet.Workflows
