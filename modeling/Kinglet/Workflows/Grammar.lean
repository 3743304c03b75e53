import Kinglet.Workflows.Syntax

/-!
# The grammar of workflow expressions

The productions, on tokens, with what they mean. An expression has a rank, which its operands bound
from below, and a nesting, which the depth limit bounds. A bare name is told apart, since a method
call on it calls a function of a module.
-/

namespace Kinglet.Workflows

open Js

mutual

/-- The tokens of an expression: its rank, whether it is a bare name, its nesting and its meaning. -/
inductive Derives : ℕ → Bool → ℕ → List Token → (Env → Except Failure Value) → Prop
  | number (text : JsString) :
      Derives 8 false 0 [⟨.number, text⟩] fun _ => .ok (.num (numberValue text))
  | string (text : JsString) : Derives 8 false 0 [⟨.string, text⟩] fun _ => .ok (.str text)
  | constant (literal : Constant) :
      Derives 8 false 0 [⟨.identifier, literal.word⟩] fun _ => .ok literal.value
  | name {name : JsString} (hname : constant name = none) :
      Derives 8 true 0 [⟨.identifier, name⟩] fun env => getVariable env name
  | paren {rank nesting : ℕ} {bare : Bool} {tokens : List Token}
      {meaning : Env → Except Failure Value} (e : Derives rank bare nesting tokens meaning) :
      Derives 8 false (nesting + 1) (.lparen :: (tokens ++ [.rparen])) meaning
  | list {nesting : ℕ} {tokens : List Token} {meanings : Env → Except Failure (List Value)}
      (items : DerivesItems nesting tokens meanings) :
      Derives 8 false nesting (.lbracket :: (tokens ++ [.rbracket]))
        fun env => meanings env >>= fun values => return .list none values
  | call {name : JsString} {nesting : ℕ} {tokens : List Token}
      {meanings : Env → Except Failure (List Value)} (hname : Workflows.constant name = none)
      (args : DerivesItems nesting tokens meanings) :
      Derives 8 false nesting (⟨.identifier, name⟩ :: .lparen :: (tokens ++ [.rparen]))
        fun env => meanings env >>= env.stdlib name
  | moduleCall {module : JsString} {nesting : ℕ} {tokens : List Token}
      {meanings : Env → Except Failure (List Value)} (hmodule : Workflows.constant module = none)
      (method : JsString) (args : DerivesItems nesting tokens meanings) :
      Derives 8 false nesting
        (⟨.identifier, module⟩ :: .dot :: ⟨.identifier, method⟩ :: .lparen ::
          (tokens ++ [.rparen]))
        fun env => meanings env >>= env.stdlib (module ++ js "." ++ method)
  | method {rank nesting nesting' : ℕ} {tokens tokens' : List Token}
      {meaning : Env → Except Failure Value} {meanings : Env → Except Failure (List Value)}
      (object : Derives rank false nesting tokens meaning) (hrank : 8 ≤ rank) (name : JsString)
      (args : DerivesItems nesting' tokens' meanings) :
      Derives 8 false (max nesting nesting')
        (tokens ++ .dot :: ⟨.identifier, name⟩ :: .lparen :: (tokens' ++ [.rparen]))
        fun env => meaning env >>= fun value => methodName value name >>= fun function =>
          meanings env >>= env.stdlib function
  | member {rank nesting : ℕ} {bare : Bool} {tokens : List Token}
      {meaning : Env → Except Failure Value} (object : Derives rank bare nesting tokens meaning)
      (hrank : 8 ≤ rank) (name : JsString) :
      Derives 8 false nesting (tokens ++ [.dot, ⟨.identifier, name⟩])
        fun env => meaning env >>= fun value => getMember value name
  | index {rank rank' nesting nesting' : ℕ} {bare bare' : Bool} {tokens tokens' : List Token}
      {meaning meaning' : Env → Except Failure Value}
      (object : Derives rank bare nesting tokens meaning) (hrank : 8 ≤ rank)
      (key : Derives rank' bare' nesting' tokens' meaning') :
      Derives 8 false (max nesting (nesting' + 1))
        (tokens ++ .lbracket :: (tokens' ++ [.rbracket]))
        fun env => meaning env >>= fun value => meaning' env >>= getIndex env.host value
  | negate {rank nesting : ℕ} {bare : Bool} {tokens : List Token}
      {meaning : Env → Except Failure Value} (e : Derives rank bare nesting tokens meaning)
      (hrank : 7 ≤ rank) :
      Derives 7 false nesting (.op "-" :: tokens) fun env => meaning env >>= applyNegate env.host
  | not {rank nesting : ℕ} {bare : Bool} {tokens : List Token}
      {meaning : Env → Except Failure Value} (e : Derives rank bare nesting tokens meaning)
      (hrank : 2 ≤ rank) :
      Derives 2 false nesting (.op "not" :: tokens)
        fun env => meaning env >>= fun value => return applyNot value
  | contains {rank rank' nesting nesting' : ℕ} {bare bare' : Bool} {tokens tokens' : List Token}
      {meaning meaning' : Env → Except Failure Value}
      (e : Derives rank bare nesting tokens meaning) (hrank : 4 ≤ rank)
      (container : Derives rank' bare' nesting' tokens' meaning') (hrank' : 4 ≤ rank') :
      Derives 3 false (max nesting nesting') (tokens ++ .op "in" :: tokens')
        fun env => meaning env >>= fun left => meaning' env >>= applyIn env.host left
  | binary {rank rank' nesting nesting' : ℕ} {bare bare' : Bool} {tokens tokens' : List Token}
      {meaning meaning' : Env → Except Failure Value} (op : BinaryOp)
      (left : Derives rank bare nesting tokens meaning) (hrank : op.level.rank ≤ rank)
      (right : Derives rank' bare' nesting' tokens' meaning') (hrank' : op.level.rank + 1 ≤ rank') :
      Derives op.level.rank false (max nesting nesting') (tokens ++ op.token :: tokens')
        fun env => meaning env >>= fun l => meaning' env >>= applyBinary env.host op l

/-- Expressions with commas between them, perhaps none. -/
inductive DerivesItems : ℕ → List Token → (Env → Except Failure (List Value)) → Prop
  | none : DerivesItems 0 [] fun _ => .ok []
  | some {rank nesting nesting' : ℕ} {bare : Bool} {tokens tokens' : List Token}
      {meaning : Env → Except Failure Value} {meanings : Env → Except Failure (List Value)}
      (first : Derives rank bare nesting tokens meaning)
      (more : DerivesMore nesting' tokens' meanings) :
      DerivesItems (max (nesting + 1) nesting') (tokens ++ tokens')
        fun env => meaning env >>= fun value => meanings env >>= fun values => return value :: values

/-- Expressions behind commas. -/
inductive DerivesMore : ℕ → List Token → (Env → Except Failure (List Value)) → Prop
  | none : DerivesMore 0 [] fun _ => .ok []
  | some {rank nesting nesting' : ℕ} {bare : Bool} {tokens tokens' : List Token}
      {meaning : Env → Except Failure Value} {meanings : Env → Except Failure (List Value)}
      (next : Derives rank bare nesting tokens meaning)
      (more : DerivesMore nesting' tokens' meanings) :
      DerivesMore (max (nesting + 1) nesting') (.comma :: (tokens ++ tokens'))
        fun env => meaning env >>= fun value => meanings env >>= fun values => return value :: values

end

end Kinglet.Workflows
