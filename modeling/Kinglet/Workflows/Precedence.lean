import Kinglet.Workflows.Grammar

/-!
# Reading the tokens of a tree

A method of the parser reads an operand with the method of the next rank and goes on with it, so
`Reads` is stated with what comes of going on: whatever the rest of the method makes of the value and
the tokens that follow, the method makes of the tokens of the tree and those. A tree whose operands
have ranks that are high enough reads at its own rank, hence at every lower one.
-/

namespace Kinglet.Workflows

open Js Library Library.FuelParser

/-! ## Steps of the parser -/

section Steps

variable {α β : Type} {tokens : List Token}

@[simp] theorem peek_bind (next : Option Token → Parser α) :
    (peek >>= next) tokens = next tokens.head? tokens :=
  rfl

@[simp] theorem advance_bind (token : Token) (next : Token → Parser α) :
    (advance >>= next) (token :: tokens) = next token tokens :=
  rfl

@[simp] theorem pure_apply (value : α) : (pure value : Parser α) tokens = .ok value tokens := rfl

theorem lift_apply (result : Except Failure α) :
    lift result tokens = after result fun value => .ok value tokens := by
  cases result <;> rfl

theorem lift_bind (result : Except Failure α) (next : α → Parser β) :
    (lift result >>= next) tokens = after result fun value => next value tokens := by
  cases result <;> rfl

theorem expect_bind (type : TokenType) (value expected : JsString) (next : Token → Parser α)
    (hvalue : expected = [] ∨ value = expected) :
    (expect type expected >>= next) (⟨type, value⟩ :: tokens) = next ⟨type, value⟩ tokens := by
  have hread : expect type expected (⟨type, value⟩ :: tokens) = .ok ⟨type, value⟩ tokens := by
    rcases hvalue with rfl | rfl <;> simp [expect]
  simp only [Bind.bind]
  rw [hread]

theorem Settles.lift {rate offset : ℕ} {result : Except Failure α} {next : ℕ → α → Parser β}
    {answer : α → ParseResult Token Failure β}
    (hnext : ∀ value, Settles rate offset (fun fuel => next fuel value) tokens (answer value)) :
    Settles rate offset (fun fuel => Workflows.lift result >>= next fuel) tokens
      (after result answer) := by
  intro fuel hfuel
  show (Workflows.lift result >>= next fuel) tokens = _
  rw [lift_bind]
  cases result with
  | error error => rfl
  | ok value => exact hnext value fuel hfuel

end Steps

/-! ## Methods by rank -/

section Ranks

variable (env : Env) (depth : ℕ)

def parseRank : ℕ → ℕ → Parser Value
  | 0, fuel => parseBinary env fuel depth .or
  | 1, fuel => parseBinary env fuel depth .and
  | 2, fuel => parseNot env fuel depth
  | 3, fuel => parseIn env fuel depth
  | 4, fuel => parseBinary env fuel depth .comparison
  | 5, fuel => parseBinary env fuel depth .addSub
  | 6, fuel => parseBinary env fuel depth .mulDiv
  | 7, fuel => parseUnary env fuel depth
  | _, fuel => parsePostfix env fuel depth

/-- `parseIn` once it has its left operand. -/
def continueIn (fuel : ℕ) (left : Value) : Parser Value := do
  let next ← peek
  if next = some (.op "in") then
    let _ ← advance
    let right ← parseBinary env fuel depth .comparison
    lift (applyIn env.host left right)
  else return left

/-- The method of a rank once it has its first operand. -/
def continueRank : ℕ → ℕ → Value → Parser Value
  | 0, fuel, left => parseBinaryTail env fuel depth .or left
  | 1, fuel, left => parseBinaryTail env fuel depth .and left
  | 3, fuel, left => continueIn env depth fuel left
  | 4, fuel, left => parseBinaryTail env fuel depth .comparison left
  | 5, fuel, left => parseBinaryTail env fuel depth .addSub left
  | 6, fuel, left => parseBinaryTail env fuel depth .mulDiv left
  | 8, fuel, value => parsePostfixTail env fuel depth value
  | _, _, value => pure value

end Ranks

/-- The fuel that a method needs beyond 20 for each token: the calls down to `parsePrimary`. -/
def offset : ℕ → ℕ
  | 0 => 15
  | 1 => 13
  | 2 => 11
  | 3 => 10
  | 4 => 9
  | 5 => 7
  | 6 => 5
  | 7 => 3
  | _ => 2

/-- The rank at which a token continues an expression. -/
def Token.rank (token : Token) : Option ℕ :=
  if token.type = .dot ∨ token = .lbracket then some 8
  else if token = .op "in" then some 3
  else (BinaryOp.all.find? fun op => token = op.token).map fun op => op.level.rank

/-- Tokens that may follow an operand of a method: they do not continue it at a higher rank, nor make
a call of it. -/
structure Follows (rank : ℕ) (bare : Bool) (rest : List Token) : Prop where
  noCall : rest.head? ≠ some .lparen
  noModule : bare → namespacedCall rest = none
  stops : ∀ m ∈ rest.head?.bind Token.rank, m ≤ rank

/-- The tokens at the end of an expression. -/
def Ends (rest : List Token) : Prop :=
  ∀ token ∈ rest.head?, token = .rparen ∨ token = .rbracket ∨ token = .comma

variable {env : Env} {depth rank : ℕ} {bare : Bool} {tokens rest : List Token}

theorem Follows.mono {rank' : ℕ} (hfollows : Follows rank bare rest) (hle : rank ≤ rank') :
    Follows rank' bare rest :=
  { hfollows with stops := fun m hm => (hfollows.stops m hm).trans hle }

/-- Below the rank of a dot there is no call of a module. -/
theorem Follows.below {bare' : Bool} (hfollows : Follows rank bare rest) (hrank : rank < 8) :
    Follows rank bare' rest := by
  refine { hfollows with noModule := fun _ => ?_ }
  match hrest : rest with
  | [] => rfl
  | ⟨.dot, value⟩ :: rest =>
    have := hfollows.stops 8 (by simp [Token.rank])
    omega
  | ⟨.number, _⟩ :: _ | ⟨.string, _⟩ :: _ | ⟨.identifier, _⟩ :: _ | ⟨.operator, _⟩ :: _
  | ⟨.paren, _⟩ :: _ | ⟨.bracket, _⟩ :: _ | ⟨.comma, _⟩ :: _ => rfl

theorem Ends.rank_eq_none (hends : Ends rest) : rest.head?.bind Token.rank = none := by
  cases hhead : rest.head? with
  | none => rfl
  | some token =>
    obtain rfl | rfl | rfl := hends token hhead
    all_goals decide +kernel

theorem Ends.follows (hends : Ends rest) (rank : ℕ) (bare : Bool) : Follows rank bare rest := by
  have hstops : ∀ m ∈ rest.head?.bind Token.rank, m ≤ 0 := by
    rw [hends.rank_eq_none]
    intro m hm
    cases hm
  have hfollows : Follows 0 false rest := ⟨fun hcall => ?_, nofun, hstops⟩
  · exact (hfollows.below (by omega)).mono (Nat.zero_le rank)
  · obtain h | h | h := hends .lparen hcall
    all_goals exact absurd h (by decide)

/-! ## Binary operators -/

theorem BinaryOp.rank_token (op : BinaryOp) : op.token.rank = some op.level.rank := by
  cases op <;> decide +kernel

theorem BinaryLevel.operator_token (op : BinaryOp) : op.level.operator (some op.token) = some op := by
  cases op <;> decide +kernel

/-- A token that does not continue at the rank of a level is none of its operators. -/
theorem BinaryLevel.operator_eq_none (level : BinaryLevel) {next : Option Token}
    (hnext : level.rank ∉ next.bind Token.rank) : level.operator next = none := by
  cases hop : level.operator next with
  | none => rfl
  | some op =>
    have hfound := List.find?_some hop
    simp only [Bool.and_eq_true, decide_eq_true_eq] at hfound
    obtain ⟨rfl, rfl⟩ := hfound
    exact absurd (by simp [op.rank_token]) hnext

theorem parseOperand_succ (level : BinaryLevel) (fuel : ℕ) :
    parseOperand env (fuel + 1) depth level = parseRank env depth (level.rank + 1) fuel := by
  cases level <;> rfl

theorem continueRank_level (level : BinaryLevel) (fuel : ℕ) (left : Value) :
    continueRank env depth level.rank fuel left = parseBinaryTail env fuel depth level left := by
  cases level <;> rfl

theorem offset_level (level : BinaryLevel) : offset level.rank = offset (level.rank + 1) + 2 := by
  cases level <;> rfl

/-- A level settles when its first operand does and its loop does on what follows. -/
theorem settles_parseBinary (level : BinaryLevel) {result : Except Failure Value}
    {answer : Value → ParseResult Token Failure Value}
    (hoperand : Settles 20 (offset (level.rank + 1))
      (fun fuel => parseRank env depth (level.rank + 1) fuel) tokens
      (after result fun value => .ok value rest))
    (hloop : ∀ value, Settles 20 (offset level.rank)
      (fun fuel => parseBinaryTail env fuel depth level value) rest (answer value))
    (hlength : rest.length < tokens.length) :
    Settles 20 (offset level.rank) (fun fuel => parseBinary env fuel depth level) tokens
      (after result answer) := by
  have hoffset := offset_level level
  have hfirst : Settles 20 (offset (level.rank + 1) + 1)
      (fun fuel => parseOperand env fuel depth level) tokens
      (after result fun value => .ok value rest) :=
    hoperand.step (fun fuel => congrFun (parseOperand_succ level fuel) tokens) (by omega)
  have hboth : Settles 20 (offset (level.rank + 1) + 1)
      (fun fuel => parseOperand env fuel depth level >>= parseBinaryTail env fuel depth level)
      tokens (after result answer) :=
    hfirst.bind hloop (by omega)
  exact hboth.step (fun fuel => rfl) (by omega)

/-- The loop of a level at one of its operators. -/
theorem settles_parseBinaryTail (op : BinaryOp) {left : Value} {result : Except Failure Value}
    {answer : Value → ParseResult Token Failure Value}
    (hoperand : Settles 20 (offset (op.level.rank + 1))
      (fun fuel => parseRank env depth (op.level.rank + 1) fuel) tokens
      (after result fun value => .ok value rest))
    (hloop : ∀ value, Settles 20 (offset op.level.rank)
      (fun fuel => parseBinaryTail env fuel depth op.level value) rest (answer value))
    (hlength : rest.length ≤ tokens.length) :
    Settles 20 (offset op.level.rank) (fun fuel => parseBinaryTail env fuel depth op.level left)
      (op.token :: tokens)
      (after result fun right => after (applyBinary env.host op left right) answer) := by
  have hoffset := offset_level op.level
  have hfirst : Settles 20 (offset (op.level.rank + 1) + 1)
      (fun fuel => parseOperand env fuel depth op.level) tokens
      (after result fun value => .ok value rest) :=
    hoperand.step (fun fuel => congrFun (parseOperand_succ op.level fuel) tokens) (by omega)
  have hboth : Settles 20 (offset (op.level.rank + 1) + 2)
      (fun fuel => parseOperand env fuel depth op.level >>= fun right => do
        let value ← lift (applyBinary env.host op left right)
        parseBinaryTail env fuel depth op.level value)
      tokens (after result fun right => after (applyBinary env.host op left right) answer) := by
    exact (hfirst.mono (Nat.le_succ _)).bind (fun right => Settles.lift hloop) (by omega)
  refine hboth.step (fun fuel => ?_) (by simp only [List.length_cons]; omega)
  simp only [parseBinaryTail, peek_bind, List.head?_cons, BinaryLevel.operator_token, advance_bind]

/-- A loop ends where no operator of its level follows. -/
theorem settles_parseBinaryTail_end (level : BinaryLevel) (value : Value)
    (hnext : level.rank ∉ rest.head?.bind Token.rank) (k : ℕ) (hk : 1 ≤ k) :
    Settles 20 k (fun fuel => parseBinaryTail env fuel depth level value) rest (.ok value rest) := by
  intro fuel hfuel
  obtain ⟨fuel, rfl⟩ : ∃ spent, fuel = spent + 1 := ⟨fuel - 1, by omega⟩
  simp only [parseBinaryTail, peek_bind, level.operator_eq_none hnext, pure_apply]

/-! ## Reading at a rank -/

/-- Whatever the rest of the method of a rank makes of the value and of what follows, the method
makes of the tokens and of what follows. -/
def ReadsAt (env : Env) (depth rank : ℕ) (bare : Bool) (tokens : List Token)
    (result : Except Failure Value) : Prop :=
  ∀ rest answer, Follows rank bare rest →
    (∀ value, Settles 20 (offset rank) (fun fuel => continueRank env depth rank fuel value) rest
      (answer value)) →
    Settles 20 (offset rank) (fun fuel => parseRank env depth rank fuel) (tokens ++ rest)
      (after result answer)

/-- The tokens read at every rank up to this, but that of `in`, which does not associate. -/
def Reads (env : Env) (depth rank : ℕ) (bare : Bool) (tokens : List Token)
    (result : Except Failure Value) : Prop :=
  ∀ m ≤ rank, m ≠ 3 → ReadsAt env depth m bare tokens result

/-- The first token of an expression of this rank: it does not close, and it is a prefix operator
only where that is read. -/
def StartsAt (rank : ℕ) (tokens : List Token) : Prop :=
  ∃ token ∈ tokens.head?, token ≠ .rparen ∧ token ≠ .rbracket ∧
    (3 ≤ rank → token ≠ .op "not") ∧ (8 ≤ rank → token ≠ .op "-")

theorem StartsAt.append (hstart : StartsAt rank tokens) (rest : List Token) :
    StartsAt rank (tokens ++ rest) := by
  obtain ⟨token, htoken, hkinds⟩ := hstart
  exact ⟨token, by cases tokens <;> simp_all, hkinds⟩

theorem StartsAt.mono {rank' : ℕ} (hstart : StartsAt rank tokens) (hle : rank' ≤ rank) :
    StartsAt rank' tokens := by
  obtain ⟨token, htoken, hparen, hbracket, hnot, hminus⟩ := hstart
  exact ⟨token, htoken, hparen, hbracket, fun h => hnot (h.trans hle), fun h => hminus (h.trans hle)⟩

theorem StartsAt.ne_nil (hstart : StartsAt rank tokens) : tokens ≠ [] := by
  rintro rfl
  obtain ⟨token, htoken, _⟩ := hstart
  cases htoken

/-- Where nothing of a higher rank follows, the rest of the next method does nothing. -/
theorem settles_continueRank (hfollows : Follows rank bare rest) (value : Value) :
    Settles 20 (offset (rank + 1)) (fun fuel => continueRank env depth (rank + 1) fuel value) rest
      (.ok value rest) := by
  have hnext : rank + 1 ∉ rest.head?.bind Token.rank := fun hmem => by
    have := hfollows.stops _ hmem
    omega
  match rank with
  | 0 => exact settles_parseBinaryTail_end .and value hnext _ (by decide)
  | 2 =>
    intro fuel _
    have hin : rest.head? ≠ some (.op "in") := by
      intro hin
      exact hnext (by rw [hin]; decide +kernel)
    simp only [continueRank, continueIn, peek_bind, if_neg hin, pure_apply]
  | 3 => exact settles_parseBinaryTail_end .comparison value hnext _ (by decide)
  | 4 => exact settles_parseBinaryTail_end .addSub value hnext _ (by decide)
  | 5 => exact settles_parseBinaryTail_end .mulDiv value hnext _ (by decide)
  | 7 =>
    intro fuel hfuel
    obtain ⟨fuel, rfl⟩ : ∃ spent, fuel = spent + 1 := ⟨fuel - 1, by simp [offset] at hfuel; omega⟩
    have hdot : rest.head?.map Token.type ≠ some .dot := by
      intro hdot
      obtain ⟨token, htoken, htype⟩ := Option.map_eq_some_iff.1 hdot
      exact hnext (by simp [htoken, Token.rank, htype])
    have hbracket : rest.head? ≠ some .lbracket := by
      intro hbracket
      exact hnext (by rw [hbracket]; decide +kernel)
    simp only [continueRank, parsePostfixTail, peek_bind, if_neg hdot, if_neg hbracket, pure_apply]
  | 1 | 6 | _ + 8 => exact fun fuel _ => rfl

/-- A method whose continuation does nothing gives the value itself. -/
theorem answer_eq {value : Value} {answer : ParseResult Token Failure Value}
    (hanswer : Settles 20 (offset rank) (fun _ => (pure value : Parser Value)) rest answer) :
    answer = .ok value rest :=
  (hanswer _ le_rfl).symm

/-- What reads at a rank reads at the rank below. -/
theorem ReadsAt.lower {result : Except Failure Value} (hrank : rank < 8)
    (hstart : StartsAt (rank + 1) tokens) (hreads : ReadsAt env depth (rank + 1) bare tokens result) :
    ReadsAt env depth rank bare tokens result := by
  intro rest answer hfollows hanswer
  have hlength : rest.length < (tokens ++ rest).length := by
    have := List.length_pos_iff.2 hstart.ne_nil
    rw [List.length_append]
    omega
  have hvalue := hreads rest (fun value => .ok value rest) (hfollows.mono (Nat.le_succ rank))
    fun value => settles_continueRank hfollows value
  obtain ⟨token, htoken, -, -, hnot, hminus⟩ := hstart.append rest
  match rank with
  | 0 => exact settles_parseBinary .or hvalue hanswer hlength
  | 1 => exact settles_parseBinary .and hvalue hanswer hlength
  | 2 =>
    have hnext : (tokens ++ rest).head? ≠ some (.op "not") := by
      rw [htoken]
      exact fun h => hnot le_rfl (Option.some.inj h)
    obtain rfl : answer = fun value => .ok value rest :=
      funext fun value => answer_eq (hanswer value)
    refine hvalue.step (fun fuel => ?_) (by simp only [offset]; omega)
    simp only [parseRank, parseNot, peek_bind, if_neg hnext]
  | 3 =>
    have hboth := hvalue.bind hanswer (by simp only [offset]; omega)
    exact hboth.step (fun _ => rfl) (by simp only [offset]; omega)
  | 4 => exact settles_parseBinary .comparison hvalue hanswer hlength
  | 5 => exact settles_parseBinary .addSub hvalue hanswer hlength
  | 6 => exact settles_parseBinary .mulDiv hvalue hanswer hlength
  | 7 =>
    have hnext : (tokens ++ rest).head? ≠ some (.op "-") := by
      rw [htoken]
      exact fun h => hminus le_rfl (Option.some.inj h)
    obtain rfl : answer = fun value => .ok value rest :=
      funext fun value => answer_eq (hanswer value)
    refine hvalue.step (fun fuel => ?_) (by simp only [offset]; omega)
    simp only [parseRank, parseUnary, peek_bind, if_neg hnext]

/-- What reads at its own rank reads at every lower one. -/
theorem ReadsAt.reads {result : Except Failure Value} (hrank : rank ≤ 8)
    (hstart : StartsAt rank tokens) (hreads : ReadsAt env depth rank bare tokens result) :
    Reads env depth rank bare tokens result := by
  have hall : ∀ m ≤ rank, ReadsAt env depth m bare tokens result := by
    intro m hm
    induction hm using Nat.decreasingInduction with
    | self => exact hreads
    | of_succ m hm ih => exact ih.lower (by omega) (hstart.mono hm)
  exact fun m hm _ => hall m hm

/-! ## Rules -/

section Rules

variable {result result' : Except Failure Value} {tokens' : List Token} {bare' : Bool} {rank' : ℕ}

/-- An operand that nothing of its own rank follows. -/
theorem Reads.operand (hreads : Reads env depth rank bare tokens result) {m : ℕ} (hm : m + 1 ≤ rank)
    (hne : m ≠ 2) (hfollows : Follows m bare rest) :
    Settles 20 (offset (m + 1)) (fun fuel => parseRank env depth (m + 1) fuel) (tokens ++ rest)
      (after result fun value => .ok value rest) :=
  hreads (m + 1) hm (by omega) rest _ (hfollows.mono (Nat.le_succ m))
    fun value => settles_continueRank hfollows value

/-- A whole expression within parentheses, brackets or arguments. -/
theorem Reads.expression (hreads : Reads env (depth + 1) rank bare tokens result)
    (hdepth : depth + 1 ≤ expressionDepthLimit) (hends : Ends rest) :
    Settles 20 16 (fun fuel => parseExpression env fuel depth) (tokens ++ rest)
      (after result fun value => .ok value rest) := by
  have hnext : BinaryLevel.or.rank ∉ rest.head?.bind Token.rank := by
    rw [hends.rank_eq_none]
    exact nofun
  have hvalue := hreads 0 (Nat.zero_le rank) (by decide) rest (fun value => .ok value rest)
    (hends.follows 0 bare) fun value => settles_parseBinaryTail_end .or value hnext _ (by decide)
  refine hvalue.step (fun fuel => ?_) (by simp only [offset]; omega)
  simp only [parseExpression, if_neg (Nat.not_lt.2 hdepth)]
  rfl

theorem follows_operator {text : JsString}
    (hrank : ∀ m ∈ Token.rank ⟨.operator, text⟩, m ≤ rank) :
    Follows rank bare (⟨.operator, text⟩ :: rest) where
  noCall := by simp [Token.lparen]
  noModule _ := rfl
  stops := hrank

theorem Reads.binary (op : BinaryOp) (hleft : Reads env depth rank bare tokens result)
    (hright : Reads env depth rank' bare' tokens' result') (hrank : op.level.rank ≤ rank)
    (hrank' : op.level.rank + 1 ≤ rank') :
    ReadsAt env depth op.level.rank false (tokens ++ op.token :: tokens')
      (result >>= fun left => result' >>= fun right => applyBinary env.host op left right) := by
  intro rest answer hfollows hanswer
  have hne : op.level.rank ≠ 2 ∧ op.level.rank ≠ 3 := by cases op <;> decide
  have hless : op.level.rank < 8 := by cases op <;> decide
  simp only [continueRank_level] at hanswer
  rw [after_bind, List.append_assoc, List.cons_append]
  refine hleft op.level.rank hrank hne.2 (op.token :: (tokens' ++ rest)) _ ?_ fun left => ?_
  · refine follows_operator fun m hm => ?_
    rw [show Token.rank ⟨.operator, op.text⟩ = some op.level.rank from op.rank_token] at hm
    exact (Option.some.inj hm).ge
  · simp only [continueRank_level, after_bind]
    refine settles_parseBinaryTail op (hright.operand hrank' hne.1 (hfollows.below hless)) hanswer ?_
    simp

/-- `in` with its container. -/
theorem settles_continueIn {left : Value}
    (hcontainer : Settles 20 (offset 4) (fun fuel => parseBinary env fuel depth .comparison) tokens
      (after result fun value => .ok value rest)) (hlength : rest.length ≤ tokens.length) :
    Settles 20 (offset 4) (fun fuel => continueIn env depth fuel left) (.op "in" :: tokens)
      (after result fun right => lift (applyIn env.host left right) rest) := by
  intro fuel hfuel
  rw [List.length_cons] at hfuel
  have hboth : Settles 20 (offset 4)
      (fun fuel => parseBinary env fuel depth .comparison >>= fun right =>
        lift (applyIn env.host left right)) tokens
      (after result fun right => lift (applyIn env.host left right) rest) :=
    hcontainer.bind (fun right (_ : ℕ) (_ : 20 * rest.length + offset 4 ≤ _) => rfl) (by omega)
  exact hboth fuel (by omega)

theorem Reads.contains (hleft : Reads env depth rank bare tokens result)
    (hright : Reads env depth rank' bare' tokens' result') (hrank : 4 ≤ rank) (hrank' : 4 ≤ rank')
    (hstart : StartsAt rank tokens) :
    ReadsAt env depth 2 false (tokens ++ .op "in" :: tokens')
      (result >>= fun left => result' >>= fun right => applyIn env.host left right) := by
  intro rest answer hfollows hanswer
  obtain rfl : answer = fun value => .ok value rest :=
    funext fun value => answer_eq (hanswer value)
  rw [after_bind, List.append_assoc, List.cons_append]
  simp only [after_bind, ← lift_apply]
  have hnext : (tokens ++ .op "in" :: (tokens' ++ rest)).head? ≠ some (.op "not") := by
    obtain ⟨token, htoken, -, -, hnot, -⟩ := hstart.append (.op "in" :: (tokens' ++ rest))
    rw [htoken]
    exact fun h => hnot (by omega) (Option.some.inj h)
  have hrest : Follows 3 bare' rest := (hfollows.below (by decide)).mono (by decide)
  have hcontainer := hright.operand hrank' (by decide) hrest
  have hin : Follows 3 bare (.op "in" :: (tokens' ++ rest)) := follows_operator (by decide +kernel)
  have hoperand := hleft.operand hrank (by decide) hin
  have hboth : Settles 20 (offset 3) (fun fuel => parseIn env fuel depth)
      (tokens ++ .op "in" :: (tokens' ++ rest))
      (after result fun left => after result' fun right => lift (applyIn env.host left right) rest) :=
    (hoperand.bind (fun left => settles_continueIn hcontainer (by simp))
      (by simp only [List.length_append, offset]; omega)).step (fun _ => rfl)
      (by simp only [offset]; omega)
  refine hboth.step (fun fuel => ?_) (by simp only [offset]; omega)
  simp only [parseRank, parseNot, peek_bind, if_neg hnext]

theorem Reads.not (hreads : Reads env depth rank bare tokens result) (hrank : 2 ≤ rank) :
    ReadsAt env depth 2 false (.op "not" :: tokens)
      (result >>= fun value => return applyNot value) := by
  intro rest answer hfollows hanswer
  have hvalue := hreads 2 hrank (by decide) rest (fun value => .ok value rest)
    (hfollows.below (by decide)) fun value _ _ => rfl
  rw [after_bind]
  have hnegated : ∀ value, Settles 20 (offset 2)
      (fun fuel => continueRank env depth 2 fuel (applyNot value)) rest
      (after (return applyNot value) answer) :=
    fun value => hanswer (applyNot value)
  have hboth := hvalue.bind hnegated (by simp only [List.length_append]; omega)
  refine Settles.step (fun _ => ?_) hboth ?_
  · rfl
  · simp only [List.cons_append, List.length_cons]
    omega

theorem Reads.negate (hreads : Reads env depth rank bare tokens result) (hrank : 7 ≤ rank) :
    ReadsAt env depth 7 false (.op "-" :: tokens)
      (result >>= fun value => applyNegate env.host value) := by
  intro rest answer hfollows hanswer
  have hvalue := hreads 7 hrank (by decide) rest (fun value => .ok value rest)
    (hfollows.below (by decide)) fun value _ _ => rfl
  obtain rfl : answer = fun value => .ok value rest :=
    funext fun value => answer_eq (hanswer value)
  rw [after_bind]
  simp only [← lift_apply]
  have hnegated : ∀ value, Settles 20 (offset 7) (fun _ => lift (applyNegate env.host value)) rest
      (lift (applyNegate env.host value) rest) :=
    fun _ _ _ => rfl
  have hboth := hvalue.bind hnegated (by simp only [List.length_append]; omega)
  refine Settles.step (fun _ => ?_) hboth ?_
  · rfl
  · simp only [List.cons_append, List.length_cons]
    omega

/-! ### Primary expressions -/

/-- What `parsePrimary` reads. -/
theorem readsAt_primary (hne : tokens ≠ [])
    (hprimary : ∀ rest, Follows 8 bare rest →
      Settles 20 1 (fun fuel => parsePrimary env fuel depth) (tokens ++ rest)
        (after result fun value => .ok value rest)) :
    ReadsAt env depth 8 bare tokens result := by
  intro rest answer hfollows hanswer
  have hlength : 0 < tokens.length := List.length_pos_iff.2 hne
  exact Settles.step (fun _ => rfl) ((hprimary rest hfollows).bind hanswer
    (by simp only [List.length_append, offset]; omega)) (by simp only [offset]; omega)

theorem readsAt_number (text : JsString) :
    ReadsAt env depth 8 false [⟨.number, text⟩] (.ok (.num (numberValue text))) := by
  apply readsAt_primary (List.cons_ne_nil _ _)
  intro rest _ fuel hfuel
  obtain ⟨fuel, rfl⟩ : ∃ spent, fuel = spent + 1 := ⟨fuel - 1, by omega⟩
  rfl

theorem readsAt_string (text : JsString) :
    ReadsAt env depth 8 false [⟨.string, text⟩] (.ok (.str text)) := by
  apply readsAt_primary (List.cons_ne_nil _ _)
  intro rest _ fuel hfuel
  obtain ⟨fuel, rfl⟩ : ∃ spent, fuel = spent + 1 := ⟨fuel - 1, by omega⟩
  rfl

theorem readsAt_constant (literal : Constant) :
    ReadsAt env depth 8 false [⟨.identifier, literal.word⟩] (.ok literal.value) := by
  apply readsAt_primary (List.cons_ne_nil _ _)
  intro rest _ fuel hfuel
  obtain ⟨fuel, rfl⟩ : ∃ spent, fuel = spent + 2 := ⟨fuel - 2, by simp at hfuel; omega⟩
  show parseIdentifier env (fuel + 1) depth literal.word rest = _
  simp only [parseIdentifier, literal.spelled]
  rfl

theorem readsAt_name {name : JsString} (hname : constant name = none) :
    ReadsAt env depth 8 true [⟨.identifier, name⟩] (getVariable env name) := by
  apply readsAt_primary (List.cons_ne_nil _ _)
  intro rest hfollows fuel hfuel
  obtain ⟨fuel, rfl⟩ : ∃ spent, fuel = spent + 2 := ⟨fuel - 2, by simp at hfuel; omega⟩
  show parseIdentifier env (fuel + 1) depth name rest = _
  simp only [parseIdentifier, hname, peek_bind, if_neg hfollows.noCall]
  simp only [Bind.bind, peekNamespaced, hfollows.noModule rfl]
  exact lift_apply _

theorem ends_close {close : Token} (hclose : close = .rparen ∨ close = .rbracket) :
    Ends (close :: rest) := by
  intro token htoken
  obtain rfl := Option.some.inj htoken
  rcases hclose with h | h
  · exact Or.inl h
  · exact Or.inr (Or.inl h)

theorem Reads.paren (hreads : Reads env (depth + 1) rank bare tokens result)
    (hdepth : depth + 1 ≤ expressionDepthLimit) :
    ReadsAt env depth 8 false (.lparen :: (tokens ++ [.rparen])) result := by
  apply readsAt_primary (List.cons_ne_nil _ _)
  intro rest _
  rw [List.cons_append, List.append_assoc]
  have hclosed : ∀ value, Settles 20 1
      (fun _ => expect .paren [41] >>= fun _ => (return value : Parser Value)) (.rparen :: rest)
      (.ok value rest) :=
    fun value _ _ => rfl
  have hends : Ends (.rparen :: rest) := ends_close (.inl rfl)
  have hboth := (hreads.expression hdepth hends).bind hclosed
    (by simp only [List.length_append]; omega)
  refine Settles.step (fun _ => ?_) hboth ?_
  · rfl
  · simp only [List.length_cons, List.length_append, List.length_nil]
    omega

/-! ### Lists and arguments -/

variable {values : Except Failure (List Value)}

/-- The tokens of items, up to a closing token. -/
def ReadsItems (env : Env) (depth : ℕ) (tokens : List Token) (values : Except Failure (List Value)) :
    Prop :=
  ∀ close rest, close = .rparen ∨ close = .rbracket →
    Settles 20 17 (fun fuel => parseItems env fuel depth close) (tokens ++ close :: rest)
      (after values fun values => .ok values (close :: rest))

/-- The tokens of the items behind commas, up to a closing token. -/
def ReadsMore (env : Env) (depth : ℕ) (tokens : List Token) (values : Except Failure (List Value)) :
    Prop :=
  ∀ close rest, close = .rparen ∨ close = .rbracket →
    Settles 20 1 (fun fuel => parseMore env fuel depth) (tokens ++ close :: rest)
      (after values fun values => .ok values (close :: rest))

theorem readsItems_nil : ReadsItems env depth [] (.ok []) := by
  intro close rest _ fuel hfuel
  obtain ⟨fuel, rfl⟩ : ∃ spent, fuel = spent + 1 := ⟨fuel - 1, by omega⟩
  have hnext : (close :: rest).head? = some close := rfl
  simp only [List.nil_append, parseItems, peek_bind, if_pos hnext]
  rfl

theorem readsMore_nil : ReadsMore env depth [] (.ok []) := by
  intro close rest hclose fuel hfuel
  obtain ⟨fuel, rfl⟩ : ∃ spent, fuel = spent + 1 := ⟨fuel - 1, by omega⟩
  rcases hclose with rfl | rfl <;> rfl

/-- After an item come commas or the end. -/
def EndsItem (tokens : List Token) : Prop := tokens = [] ∨ tokens.head? = some .comma

theorem EndsItem.ends (hends : EndsItem tokens) {close : Token}
    (hclose : close = .rparen ∨ close = .rbracket) (rest : List Token) :
    Ends (tokens ++ close :: rest) := by
  obtain rfl | hcomma := hends
  · exact ends_close hclose
  · intro token htoken
    rw [List.head?_append, hcomma] at htoken
    obtain rfl := Option.some.inj htoken
    exact Or.inr (Or.inr rfl)

/-- An item and those behind it. -/
theorem Reads.settlesItems (hreads : Reads env (depth + 1) rank bare tokens result)
    (hdepth : depth + 1 ≤ expressionDepthLimit) (hmore : ReadsMore env depth tokens' values)
    (hends : EndsItem tokens') {close : Token} (hclose : close = .rparen ∨ close = .rbracket)
    (rest : List Token) :
    Settles 20 16
      (fun fuel => parseExpression env fuel depth >>= fun first =>
        parseMore env fuel depth >>= fun rest => return first :: rest)
      (tokens ++ (tokens' ++ close :: rest))
      (after (result >>= fun value => values >>= fun values => return value :: values)
        fun values => .ok values (close :: rest)) := by
  have hreturn : ∀ first values, Settles 20 1
      (fun _ => (return first :: values : Parser (List Value))) (close :: rest)
      (after (return first :: values) fun values => .ok values (close :: rest)) :=
    fun _ _ _ _ => rfl
  have hrest : ∀ first, Settles 20 1
      (fun fuel => parseMore env fuel depth >>= fun rest => return first :: rest)
      (tokens' ++ close :: rest)
      (after (values >>= fun values => return first :: values)
        fun values => .ok values (close :: rest)) := by
    intro first
    rw [after_bind]
    exact (hmore close rest hclose).bind (hreturn first) (by simp only [List.length_append]; omega)
  rw [after_bind]
  exact (hreads.expression hdepth (hends.ends hclose rest)).bind hrest
    (by simp only [List.length_append]; omega)

theorem Reads.moreItems (hreads : Reads env (depth + 1) rank bare tokens result)
    (hdepth : depth + 1 ≤ expressionDepthLimit) (hmore : ReadsMore env depth tokens' values)
    (hends : EndsItem tokens') :
    ReadsMore env depth (.comma :: (tokens ++ tokens'))
      (result >>= fun value => values >>= fun values => return value :: values) := by
  intro close rest hclose
  refine Settles.step (fun _ => ?_) (hreads.settlesItems hdepth hmore hends hclose rest) ?_
  · rw [List.cons_append, List.append_assoc]
    rfl
  · simp only [List.length_cons, List.length_append]
    omega

theorem Reads.items (hreads : Reads env (depth + 1) rank bare tokens result)
    (hdepth : depth + 1 ≤ expressionDepthLimit) (hmore : ReadsMore env depth tokens' values)
    (hends : EndsItem tokens') (hstart : StartsAt rank tokens) :
    ReadsItems env depth (tokens ++ tokens')
      (result >>= fun value => values >>= fun values => return value :: values) := by
  intro close rest hclose
  have hnext : (tokens ++ (tokens' ++ close :: rest)).head? ≠ some close := by
    obtain ⟨token, htoken, hparen, hbracket, -⟩ := hstart.append (tokens' ++ close :: rest)
    rw [htoken]
    rintro ⟨⟩
    exact hclose.elim hparen hbracket
  refine Settles.step (fun _ => ?_) (hreads.settlesItems hdepth hmore hends hclose rest) ?_
  · rw [List.append_assoc]
    simp only [parseItems, peek_bind, if_neg hnext]
  · simp only [List.length_cons, List.length_append]
    omega

theorem ReadsItems.arguments (hitems : ReadsItems env depth tokens values) :
    Settles 20 18 (fun fuel => parseArgList env fuel depth) (tokens ++ .rparen :: rest)
      (after values fun values => .ok values (.rparen :: rest)) :=
  (hitems .rparen rest (.inl rfl)).step (fun _ => rfl) (by omega)

theorem ReadsItems.list (hitems : ReadsItems env depth tokens values) :
    ReadsAt env depth 8 false (.lbracket :: (tokens ++ [.rbracket]))
      (values >>= fun values => return .list none values) := by
  apply readsAt_primary (List.cons_ne_nil _ _)
  intro rest _
  rw [List.cons_append, List.append_assoc, after_bind]
  have hclosed : ∀ values, Settles 20 1
      (fun _ => expect .bracket [93] >>= fun _ => (return .list none values : Parser Value))
      (.rbracket :: rest) (.ok (.list none values) rest) :=
    fun values _ _ => rfl
  have hboth := (hitems .rbracket rest (.inr rfl)).bind hclosed
    (by simp only [List.length_append]; omega)
  refine Settles.step (fun _ => ?_) hboth ?_
  · rfl
  · simp only [List.length_cons, List.length_append, List.length_nil]
    omega

/-- Arguments, the closing parenthesis and the call of a function. -/
theorem ReadsItems.called (hitems : ReadsItems env depth tokens values) (function : JsString) :
    Settles 20 18
      (fun fuel => parseArgList env fuel depth >>= fun args => expect .paren [41] >>= fun _ =>
        lift (env.stdlib function args))
      (tokens ++ .rparen :: rest)
      (after (values >>= fun values => env.stdlib function values) fun value => .ok value rest) := by
  rw [after_bind]
  refine hitems.arguments.bind (fun args (_ : ℕ) (_ : 20 * _ + 1 ≤ _) => ?_)
    (by simp only [List.length_append]; omega)
  rw [← lift_apply]
  exact expect_bind .paren [41] [41] _ (.inr rfl)

/-- A call of a function by its name. -/
theorem ReadsItems.call (hitems : ReadsItems env depth tokens values) {name : JsString}
    (hname : constant name = none) :
    ReadsAt env depth 8 false (⟨.identifier, name⟩ :: .lparen :: (tokens ++ [.rparen]))
      (values >>= fun values => env.stdlib name values) := by
  apply readsAt_primary (List.cons_ne_nil _ _)
  intro rest _
  rw [List.cons_append, List.cons_append, List.append_assoc, List.singleton_append]
  have hidentifier : Settles 20 1 (fun fuel => parseIdentifier env fuel depth name)
      (.lparen :: (tokens ++ .rparen :: rest))
      (after (values >>= fun values => env.stdlib name values) fun value => .ok value rest) := by
    refine Settles.step (fun _ => ?_) (hitems.called name)
      (by simp only [List.length_cons]; omega)
    simp only [parseIdentifier, hname]
    rfl
  refine Settles.step (fun _ => ?_) hidentifier (by simp only [List.length_cons]; omega)
  rfl

/-- A call of a function of a module. -/
theorem ReadsItems.moduleCall (hitems : ReadsItems env depth tokens values) {name : JsString}
    (hname : constant name = none) (method : JsString) :
    ReadsAt env depth 8 false
      (⟨.identifier, name⟩ :: .dot :: ⟨.identifier, method⟩ :: .lparen ::
        (tokens ++ [.rparen]))
      (values >>= fun values => env.stdlib (name ++ js "." ++ method) values) := by
  apply readsAt_primary (List.cons_ne_nil _ _)
  intro rest _
  rw [List.cons_append, List.cons_append, List.cons_append, List.cons_append, List.append_assoc,
    List.singleton_append]
  have hidentifier : Settles 20 1 (fun fuel => parseIdentifier env fuel depth name)
      (.dot :: ⟨.identifier, method⟩ :: .lparen :: (tokens ++ .rparen :: rest))
      (after (values >>= fun values => env.stdlib (name ++ js "." ++ method) values)
        fun value => .ok value rest) := by
    refine Settles.step (fun _ => ?_) (hitems.called (name ++ js "." ++ method))
      (by simp only [List.length_cons]; omega)
    simp only [parseIdentifier, hname]
    rfl
  refine Settles.step (fun _ => ?_) hidentifier (by simp only [List.length_cons]; omega)
  rfl

/-! ### Postfix -/

theorem follows_dot {name : JsString} (hcall : bare → rest.head? ≠ some .lparen) :
    Follows 8 bare (.dot :: ⟨.identifier, name⟩ :: rest) where
  noCall := by simp [Token.dot, Token.lparen]
  noModule hbare := by
    cases rest with
    | nil => rfl
    | cons token rest => exact if_neg fun h => hcall hbare (congrArg some h)
  stops m hm := (Option.some.inj hm).ge

theorem follows_bracket : Follows 8 bare (.lbracket :: rest) where
  noCall := by simp [Token.lbracket, Token.lparen]
  noModule _ := rfl
  stops m hm := by
    have hrank : Token.lbracket.rank = some 8 := by decide +kernel
    exact (Option.some.inj (hrank.symm.trans hm)).ge

/-- The loop over postfix operators at a dot. -/
theorem parsePostfixTail_dot (fuel : ℕ) (value : Value) (name : JsString) :
    parsePostfixTail env (fuel + 1) depth value (.dot :: ⟨.identifier, name⟩ :: rest) =
      (if rest.head? = some Token.lparen then do
        let function ← lift (methodName value name)
        let _ ← advance
        let args ← parseArgList env fuel depth
        let _ ← expect .paren [41]
        let result ← lift (env.stdlib function args)
        parsePostfixTail env fuel depth result
      else do
        let found ← lift (getMember value name)
        parsePostfixTail env fuel depth found) rest :=
  rfl

theorem Reads.member (hreads : Reads env depth rank bare tokens result) (hrank : 8 ≤ rank)
    (name : JsString) :
    ReadsAt env depth 8 false (tokens ++ [.dot, ⟨.identifier, name⟩])
      (result >>= fun value => getMember value name) := by
  intro rest answer hnext hanswer
  have hsuffix : ∀ value, Settles 20 2 (fun fuel => parsePostfixTail env fuel depth value)
      (.dot :: ⟨.identifier, name⟩ :: rest) (after (getMember value name) answer) := by
    intro value
    refine Settles.step (fun fuel => ?_) (Settles.lift hanswer)
      (by simp only [List.length_cons, offset]; omega)
    rw [parsePostfixTail_dot, if_neg hnext.noCall]
    rfl
  rw [after_bind, List.append_assoc]
  exact hreads 8 hrank (by decide) _ _ (follows_dot fun _ => hnext.noCall) hsuffix

theorem Reads.index (hreads : Reads env depth rank bare tokens result) (hrank : 8 ≤ rank)
    (hkey : Reads env (depth + 1) rank' bare' tokens' result')
    (hdepth : depth + 1 ≤ expressionDepthLimit) :
    ReadsAt env depth 8 false (tokens ++ .lbracket :: (tokens' ++ [.rbracket]))
      (result >>= fun value => result' >>= fun key => getIndex env.host value key) := by
  intro rest answer _ hanswer
  have hclosed : ∀ value key, Settles 20 2
      (fun fuel => expect .bracket [93] >>= fun _ => lift (getIndex env.host value key) >>=
        parsePostfixTail env fuel depth)
      (.rbracket :: rest) (after (getIndex env.host value key) answer) := by
    intro value key
    refine Settles.read (fun _ => ?_) (Settles.lift hanswer)
      (by simp only [List.length_cons, offset]; omega)
    rfl
  have hsuffix : ∀ value, Settles 20 2 (fun fuel => parsePostfixTail env fuel depth value)
      (.lbracket :: (tokens' ++ .rbracket :: rest))
      (after result' fun key => after (getIndex env.host value key) answer) := by
    intro value
    have hends : Ends (.rbracket :: rest) := ends_close (.inr rfl)
    have hboth := (hkey.expression hdepth hends).bind (hclosed value)
      (by simp only [List.length_append]; omega)
    refine Settles.step (fun _ => ?_) hboth (by simp only [List.length_cons]; omega)
    rfl
  simp only [after_bind]
  rw [List.append_assoc, List.cons_append, List.append_assoc]
  exact hreads 8 hrank (by decide) _ _ follows_bracket hsuffix

/-- A method call on a value. -/
theorem Reads.method (hreads : Reads env depth rank false tokens result) (hrank : 8 ≤ rank)
    (name : JsString) (hitems : ReadsItems env depth tokens' values) :
    ReadsAt env depth 8 false
      (tokens ++ .dot :: ⟨.identifier, name⟩ :: .lparen :: (tokens' ++ [.rparen]))
      (result >>= fun value => methodName value name >>= fun function =>
        values >>= fun values => env.stdlib function values) := by
  intro rest answer _ hanswer
  have hcalled : ∀ function args, Settles 20 2
      (fun fuel => expect .paren [41] >>= fun _ => lift (env.stdlib function args) >>=
        parsePostfixTail env fuel depth)
      (.rparen :: rest) (after (env.stdlib function args) answer) := by
    intro function args
    refine Settles.read (fun _ => ?_) (Settles.lift hanswer)
      (by simp only [List.length_cons, offset]; omega)
    rfl
  have hsuffix : ∀ value, Settles 20 2 (fun fuel => parsePostfixTail env fuel depth value)
      (.dot :: ⟨.identifier, name⟩ :: .lparen :: (tokens' ++ .rparen :: rest))
      (after (methodName value name) fun function =>
        after values fun args => after (env.stdlib function args) answer) := by
    intro value
    have hargs : ∀ function, Settles 20 18
        (fun fuel => parseArgList env fuel depth >>= fun args => expect .paren [41] >>= fun _ =>
          lift (env.stdlib function args) >>= parsePostfixTail env fuel depth)
        (tokens' ++ .rparen :: rest)
        (after values fun args => after (env.stdlib function args) answer) := fun function =>
      hitems.arguments.bind (hcalled function) (by simp only [List.length_append]; omega)
    refine Settles.step (fun fuel => ?_) (Settles.lift hargs)
      (by simp only [List.length_cons]; omega)
    rw [parsePostfixTail_dot, List.head?_cons, if_pos rfl, lift_bind, lift_bind]
    rfl
  simp only [after_bind]
  rw [List.append_assoc, List.cons_append, List.cons_append, List.cons_append, List.append_assoc]
  exact hreads 8 hrank (by decide) _ _ (follows_dot nofun) hsuffix

end Rules

/-! ## The grammar -/

theorem startsAt_operand {type : TokenType} (text : JsString) (rest : List Token)
    (htype : type ≠ .paren ∧ type ≠ .bracket ∧ type ≠ .operator) :
    StartsAt 8 (⟨type, text⟩ :: rest) :=
  ⟨⟨type, text⟩, rfl, fun h => htype.1 (congrArg Token.type h),
    fun h => htype.2.1 (congrArg Token.type h), fun _ h => htype.2.2 (congrArg Token.type h),
    fun _ h => htype.2.2 (congrArg Token.type h)⟩

namespace Derives

/-- The first token of an expression is not a prefix operator of a lower rank: the first operand has
the rank of the whole at least. -/
theorem startsAt {rank nesting : ℕ} {bare : Bool} {tokens : List Token}
    {meaning : Env → Except Failure Value} (e : Derives rank bare nesting tokens meaning) :
    StartsAt rank tokens := by
  match e with
  | .number text => exact startsAt_operand text [] (by decide)
  | .string text => exact startsAt_operand text [] (by decide)
  | .constant literal => exact startsAt_operand literal.word [] (by decide)
  | .name _ => exact startsAt_operand _ [] (by decide)
  | .paren e => exact ⟨.lparen, rfl, by decide, by decide, fun _ => by decide, fun _ => by decide⟩
  | .list items =>
    exact ⟨.lbracket, rfl, by decide, by decide, fun _ => by decide, fun _ => by decide⟩
  | .call _ args => exact startsAt_operand _ _ (by decide)
  | .moduleCall _ _ args => exact startsAt_operand _ _ (by decide)
  | .method object hrank _ args => exact (object.startsAt.mono hrank).append _
  | .member object hrank _ => exact (object.startsAt.mono hrank).append _
  | .index object hrank key => exact (object.startsAt.mono hrank).append _
  | .negate e hrank =>
    have hrank : ¬ (8 : ℕ) ≤ 7 := by decide
    exact ⟨.op "-", rfl, by decide, by decide, fun _ => by decide +kernel, fun h => (hrank h).elim⟩
  | .not e hrank =>
    have hrank : ¬ (3 : ℕ) ≤ 2 := by decide
    exact ⟨.op "not", rfl, by decide, by decide, fun h => (hrank h).elim,
      fun _ => by decide +kernel⟩
  | .contains e hrank _ _ => exact (e.startsAt.mono (le_trans (by decide) hrank)).append _
  | .binary op left hrank _ _ => exact (left.startsAt.mono hrank).append _

theorem rank_le {nesting : ℕ} {meaning : Env → Except Failure Value}
    (e : Derives rank bare nesting tokens meaning) : rank ≤ 8 := by
  cases e with
  | binary op _ _ _ _ => cases op <;> exact Nat.le_of_ble_eq_true rfl
  | _ => exact Nat.le_of_ble_eq_true rfl

end Derives

theorem DerivesMore.endsItem {nesting : ℕ} {meanings : Env → Except Failure (List Value)}
    (more : DerivesMore nesting tokens meanings) : EndsItem tokens := by
  cases more with
  | none => exact Or.inl rfl
  | some next more => exact Or.inr rfl

mutual

/-- What the grammar derives reads as what it means. -/
theorem Derives.reads {rank nesting : ℕ} {bare : Bool} {tokens : List Token}
    {meaning : Env → Except Failure Value} (e : Derives rank bare nesting tokens meaning) (depth : ℕ)
    (hdepth : depth + nesting ≤ expressionDepthLimit) :
    Reads env depth rank bare tokens (meaning env) := by
  have hrank := e.rank_le
  have hstart := e.startsAt
  match e with
  | .number text => exact (readsAt_number text).reads hrank hstart
  | .string text => exact (readsAt_string text).reads hrank hstart
  | .constant literal => exact (readsAt_constant literal).reads hrank hstart
  | .name hname => exact (readsAt_name hname).reads hrank hstart
  | .paren e =>
    have hinner := e.reads (depth + 1) (by omega)
    exact (hinner.paren (by omega)).reads hrank hstart
  | .list items => exact (items.reads depth hdepth).list.reads hrank hstart
  | .call hname args => exact ((args.reads depth hdepth).call hname).reads hrank hstart
  | .moduleCall hmodule method args =>
    exact ((args.reads depth hdepth).moduleCall hmodule method).reads hrank hstart
  | .method object hobject name args =>
    have hreads := object.reads depth (by omega)
    have hargs := args.reads depth (by omega)
    exact (hreads.method hobject name hargs).reads hrank hstart
  | .member object hobject name =>
    have hreads := object.reads depth hdepth
    exact (hreads.member hobject name).reads hrank hstart
  | .index object hobject key =>
    have hreads := object.reads depth (by omega)
    have hkey := key.reads (depth + 1) (by omega)
    exact (hreads.index hobject hkey (by omega)).reads hrank hstart
  | .negate e hoperand =>
    have hreads := e.reads depth hdepth
    exact (hreads.negate hoperand).reads hrank hstart
  | .not e hoperand =>
    have hreads := e.reads depth hdepth
    exact (hreads.not hoperand).reads hrank hstart
  | .contains e hoperand container hcontainer =>
    have hleft := e.reads depth (by omega)
    have hright := container.reads depth (by omega)
    have htwo := (hleft.contains hright hoperand hcontainer e.startsAt).reads (by decide)
      (hstart.mono (Nat.le_succ 2))
    intro m hm hne
    exact htwo m (by omega) hne
  | .binary op left hoperand right hoperand' =>
    have hleft := left.reads depth (by omega)
    have hright := right.reads depth (by omega)
    exact (hleft.binary op hright hoperand hoperand').reads hrank hstart

theorem DerivesItems.reads {nesting : ℕ} {tokens : List Token}
    {meanings : Env → Except Failure (List Value)}
    (items : DerivesItems nesting tokens meanings) (depth : ℕ)
    (hdepth : depth + nesting ≤ expressionDepthLimit) :
    ReadsItems env depth tokens (meanings env) := by
  match items with
  | .none => exact readsItems_nil
  | .some first more =>
    have hfirst := first.reads (depth + 1) (by omega)
    have hmore := more.reads depth (by omega)
    exact hfirst.items (by omega) hmore more.endsItem first.startsAt

theorem DerivesMore.reads {nesting : ℕ} {tokens : List Token}
    {meanings : Env → Except Failure (List Value)}
    (more : DerivesMore nesting tokens meanings) (depth : ℕ)
    (hdepth : depth + nesting ≤ expressionDepthLimit) :
    ReadsMore env depth tokens (meanings env) := by
  match more with
  | .none => exact readsMore_nil
  | .some next more =>
    have hnext := next.reads (depth + 1) (by omega)
    have hmore := more.reads depth (by omega)
    exact hnext.moreItems (by omega) hmore more.endsItem

end

/-! ## Trees -/

namespace Expr

mutual

/-- The operands of every node have ranks that are high enough. -/
def Fits (place : Containment) : Expr → Prop
  | .number _ | .string _ | .constant _ | .variable _ => True
  | .paren e => e.Fits place
  | .list items => AllFit place items
  | .call _ args => AllFit place args
  | .method object _ args => 8 ≤ object.rank place ∧ object.Fits place ∧ AllFit place args
  | .member object _ => 8 ≤ object.rank place ∧ object.Fits place
  | .index object key => 8 ≤ object.rank place ∧ object.Fits place ∧ key.Fits place
  | .negate e => 7 ≤ e.rank place ∧ e.Fits place
  | .not e => 2 ≤ e.rank place ∧ e.Fits place
  | .contains e container =>
      place.left ≤ e.rank place ∧ e.Fits place ∧
        place.right ≤ container.rank place ∧ container.Fits place
  | .binary op left right =>
      op.level.rank ≤ left.rank place ∧ left.Fits place ∧
        op.level.rank + 1 ≤ right.rank place ∧ right.Fits place

def AllFit (place : Containment) : List Expr → Prop
  | [] => True
  | e :: es => e.Fits place ∧ AllFit place es

end

theorem exists_of_moduleName {e : Expr} {module : JsString} (hmodule : e.moduleName = some module) :
    ∃ name, e = .variable name ∧ module = name.text := by
  unfold moduleName at hmodule
  split at hmodule
  · exact ⟨_, rfl, (Option.some.inj hmodule).symm⟩
  · cases hmodule

variable {env : Env}

mutual

/-- The grammar derives the tree whose operands have ranks that are high enough. -/
theorem derives (e : Expr) (hfits : e.Fits belowComparisons) :
    Derives (e.rank belowComparisons) e.moduleName.isSome e.nesting e.tokens
      fun env => e.eval env := by
  match e with
  | .number numeral => exact .number numeral.text
  | .string text => exact .string text
  | .constant literal => exact .constant literal
  | .variable name => exact .name name.notConstant
  | .paren e => exact .paren (derives e hfits)
  | .list items => exact .list (derivesItems items hfits)
  | .call function args => exact .call function.notConstant (derivesItems args hfits)
  | .method object name args =>
    have hargs := derivesItems args hfits.2.2
    cases hmodule : object.moduleName with
    | some module =>
      obtain ⟨called, rfl, rfl⟩ := exists_of_moduleName hmodule
      have hcall := Derives.moduleCall called.notConstant name.text hargs
      rw [← Nat.zero_max (itemNesting args)] at hcall
      exact hcall
    | none =>
      have hobject := derives object hfits.2.1
      rw [hmodule] at hobject
      have hmethod := Derives.method hobject hfits.1 name.text hargs
      have heval : (fun env => (Expr.method object name args).eval env) = fun env =>
          object.eval env >>= fun value => methodName value name.text >>= fun function =>
            evalAll env args >>= env.stdlib function := by
        funext env
        rw [eval, hmodule]
      rw [heval]
      exact hmethod
  | .member object name => exact .member (derives object hfits.2) hfits.1 name.text
  | .index object key => exact .index (derives object hfits.2.1) hfits.1 (derives key hfits.2.2)
  | .negate e => exact .negate (derives e hfits.2) hfits.1
  | .not e => exact .not (derives e hfits.2) hfits.1
  | .contains e container =>
    exact .contains (derives e hfits.2.1) hfits.1 (derives container hfits.2.2.2) hfits.2.2.1
  | .binary op left right =>
    exact .binary op (derives left hfits.2.1) hfits.1 (derives right hfits.2.2.2) hfits.2.2.1

theorem derivesItems (es : List Expr) (hfits : AllFit belowComparisons es) :
    DerivesItems (itemNesting es) (itemTokens es) fun env => evalAll env es := by
  match es with
  | [] => exact .none
  | e :: es => exact .some (derives e hfits.1) (derivesMore es hfits.2)

theorem derivesMore (es : List Expr) (hfits : AllFit belowComparisons es) :
    DerivesMore (itemNesting es) (moreTokens es) fun env => evalAll env es := by
  match es with
  | [] => exact .none
  | e :: es => exact .some (derives e hfits.1) (derivesMore es hfits.2)

end

/-- A tree whose operands have ranks that are high enough reads as what it means. -/
theorem reads (e : Expr) (hfits : e.Fits belowComparisons) (depth : ℕ)
    (hdepth : depth + e.nesting ≤ expressionDepthLimit) :
    Reads env depth (e.rank belowComparisons) e.moduleName.isSome e.tokens (e.eval env) :=
  (e.derives hfits).reads depth hdepth

/-! ### Parentheses -/

variable {place : Containment} {least : ℕ}

theorem moduleName_parenthesized (e : Expr) : (e.parenthesized place).moduleName = e.moduleName := by
  cases e <;> rfl

/-- A bare name is never wrapped. -/
theorem moduleName_wrapped (e : Expr) (hleast : least ≤ 8) :
    (wrapped place least e).moduleName = e.moduleName := by
  unfold wrapped
  split
  case isTrue hrank =>
    cases hmodule : e.moduleName with
    | none => rfl
    | some module =>
      obtain ⟨name, rfl, -⟩ := exists_of_moduleName hmodule
      exact absurd hleast (Nat.not_le.2 hrank)
  case isFalse => rfl

theorem eval_wrapped (e : Expr) : (wrapped place least e).eval env = e.eval env := by
  unfold wrapped
  split <;> rfl

theorem fits_wrapped {e : Expr} (hfits : e.Fits place) : (wrapped place least e).Fits place := by
  unfold wrapped
  split <;> exact hfits

theorem le_rank_wrapped (e : Expr) (hleast : least ≤ 8) :
    least ≤ (wrapped place least e).rank place := by
  unfold wrapped
  split
  · exact hleast
  · omega

mutual

/-- Parentheses do not change what a tree means. -/
theorem eval_parenthesized (e : Expr) : (e.parenthesized place).eval env = e.eval env := by
  match e with
  | .number _ | .string _ | .constant _ | .variable _ => rfl
  | .paren e => exact eval_parenthesized e
  | .list items => simp only [parenthesized, eval, evalAll_parenthesized items]
  | .call function args => simp only [parenthesized, eval, evalAll_parenthesized args]
  | .method object name args =>
    simp only [parenthesized, eval, moduleName_wrapped _ le_rfl, moduleName_parenthesized,
      eval_wrapped, eval_parenthesized object, evalAll_parenthesized args]
  | .member object name =>
    simp only [parenthesized, eval, eval_wrapped, eval_parenthesized object]
  | .index object key =>
    simp only [parenthesized, eval, eval_wrapped, eval_parenthesized object, eval_parenthesized key]
  | .negate e => simp only [parenthesized, eval, eval_wrapped, eval_parenthesized e]
  | .not e => simp only [parenthesized, eval, eval_wrapped, eval_parenthesized e]
  | .contains e container =>
    simp only [parenthesized, eval, eval_wrapped, eval_parenthesized e,
      eval_parenthesized container]
  | .binary op left right =>
    simp only [parenthesized, eval, eval_wrapped, eval_parenthesized left, eval_parenthesized right]

theorem evalAll_parenthesized (es : List Expr) :
    evalAll env (allParenthesized place es) = evalAll env es := by
  match es with
  | [] => rfl
  | e :: es => simp only [allParenthesized, evalAll, eval_parenthesized e, evalAll_parenthesized es]

end

mutual

theorem fits_parenthesized (hleft : place.left ≤ 8) (hright : place.right ≤ 8) (e : Expr) :
    (e.parenthesized place).Fits place := by
  match e with
  | .number _ | .string _ | .constant _ | .variable _ => trivial
  | .paren e => exact fits_parenthesized hleft hright e
  | .list items => exact allFit_parenthesized hleft hright items
  | .call function args => exact allFit_parenthesized hleft hright args
  | .method object name args =>
    exact ⟨le_rank_wrapped _ le_rfl, fits_wrapped (fits_parenthesized hleft hright object),
      allFit_parenthesized hleft hright args⟩
  | .member object name =>
    exact ⟨le_rank_wrapped _ le_rfl, fits_wrapped (fits_parenthesized hleft hright object)⟩
  | .index object key =>
    exact ⟨le_rank_wrapped _ le_rfl, fits_wrapped (fits_parenthesized hleft hright object),
      fits_parenthesized hleft hright key⟩
  | .negate e =>
    exact ⟨le_rank_wrapped _ (by decide), fits_wrapped (fits_parenthesized hleft hright e)⟩
  | .not e => exact ⟨le_rank_wrapped _ (by decide), fits_wrapped (fits_parenthesized hleft hright e)⟩
  | .contains e container =>
    exact ⟨le_rank_wrapped _ hleft, fits_wrapped (fits_parenthesized hleft hright e),
      le_rank_wrapped _ hright, fits_wrapped (fits_parenthesized hleft hright container)⟩
  | .binary op left right =>
    have hrank : op.level.rank + 1 ≤ 8 := by cases op <;> decide
    exact ⟨le_rank_wrapped _ (by omega), fits_wrapped (fits_parenthesized hleft hright left),
      le_rank_wrapped _ hrank, fits_wrapped (fits_parenthesized hleft hright right)⟩

theorem allFit_parenthesized (hleft : place.left ≤ 8) (hright : place.right ≤ 8) (es : List Expr) :
    AllFit place (allParenthesized place es) := by
  match es with
  | [] => trivial
  | e :: es => exact ⟨fits_parenthesized hleft hright e, allFit_parenthesized hleft hright es⟩

end

end Expr

end Kinglet.Workflows
