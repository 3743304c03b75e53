import Kinglet.Armor.Access
import Kinglet.Library.Outcome

/-!
# Expressions blind to the body

Two requests that differ in their body and parameters only give related values to an expression that
follows `bodyRules`: values are `Alike` when they are equal but for the two request records in them.
Every conversion, function and operator is blind to that difference, and a lookup in a request
record under a literal key other than `body` and `params` is, too.
-/

namespace Kinglet.Armor

open Js Library

/-- The same request with another body and other parameters. -/
def RequestAttributes.withBody (attributes : RequestAttributes) (body : JsString) (params : Fields) :
    RequestAttributes :=
  { attributes with request := { attributes.request with body := body, params := params } }

/-- Access to a request under literal keys other than `body` and `params`. -/
def bodyRules : AccessRules where
  records := ["request"]
  ident _ := true
  field _ key := key.any fun name => name ≠ js "body" && name ≠ js "params"
  callee _ := true

/-! ## Values that differ in the body -/

mutual
/-- Equal but for the request records: `here` tells whether the value may be one, `within` whether
one may lie inside the value. -/
inductive Alike (A B : RequestAttributes) : Bool → Bool → JsValue → JsValue → Prop
  | same {here within : Bool} (v : JsValue) : Alike A B here within v v
  | request {within : Bool} : Alike A B true within (requestValue A) (requestValue B)
  | arr {here : Bool} {vs ws : List JsValue} (h : AlikeAll A B vs ws) :
      Alike A B here true (.arr none vs) (.arr none ws)
  | obj {here : Bool} {fs gs : Fields} (h : AlikeFields A B fs gs) :
      Alike A B here true (.obj none fs) (.obj none gs)

inductive AlikeAll (A B : RequestAttributes) : List JsValue → List JsValue → Prop
  | nil : AlikeAll A B [] []
  | cons {v w : JsValue} {vs ws : List JsValue} (h : Alike A B true true v w)
      (hs : AlikeAll A B vs ws) : AlikeAll A B (v :: vs) (w :: ws)

inductive AlikeFields (A B : RequestAttributes) : Fields → Fields → Prop
  | nil : AlikeFields A B [] []
  | cons {v w : JsValue} {fs gs : Fields} (name : JsString) (h : Alike A B true true v w)
      (hs : AlikeFields A B fs gs) : AlikeFields A B ((name, v) :: fs) ((name, w) :: gs)
end

section Values

variable {A B : RequestAttributes} {here within : Bool} {v w : JsValue} {vs ws : List JsValue}
  {fs gs : Fields}

theorem Alike.self (v : JsValue) : Alike A B false false v v := .same v

theorem Alike.widen (h : Alike A B here within v w) : Alike A B true true v w := by
  cases h with
  | same => exact .same _
  | request => exact .request
  | arr h => exact .arr h
  | obj h => exact .obj h

theorem Alike.eq (h : Alike A B false false v w) : v = w := by
  cases h
  rfl

theorem AlikeAll.length (h : AlikeAll A B vs ws) : vs.length = ws.length := by
  induction vs generalizing ws with
  | nil => cases h; rfl
  | cons v vs ih =>
    cases h with
    | cons _ hs => rw [List.length_cons, List.length_cons, ih hs]

theorem AlikeAll.getD (h : AlikeAll A B vs ws) (i : ℕ) :
    Alike A B true true (vs.getD i .undefined) (ws.getD i .undefined) := by
  induction vs generalizing ws i with
  | nil => cases h; exact .same _
  | cons v vs ih =>
    cases h with
    | cons hv hs =>
      cases i with
      | zero => exact hv
      | succ i => exact ih hs i

theorem AlikeFields.length (h : AlikeFields A B fs gs) : fs.length = gs.length := by
  induction fs generalizing gs with
  | nil => cases h; rfl
  | cons f fs ih =>
    cases h with
    | cons _ _ hs => rw [List.length_cons, List.length_cons, ih hs]

theorem AlikeFields.ownField (h : AlikeFields A B fs gs) (name : JsString) :
    ownField fs name = none ∧ ownField gs name = none ∨
      ∃ v w, ownField fs name = some v ∧ ownField gs name = some w ∧ Alike A B true true v w := by
  induction fs generalizing gs with
  | nil => cases h; exact .inl ⟨rfl, rfl⟩
  | cons f fs ih =>
    cases h with
    | cons other hv hs =>
      simp only [Js.ownField, List.lookup_cons]
      split
      · exact .inr ⟨_, _, rfl, rfl, hv⟩
      · exact ih hs

theorem AlikeFields.hasOwn (h : AlikeFields A B fs gs) (name : JsString) :
    hasOwn fs name = hasOwn gs name := by
  unfold Js.hasOwn
  rcases h.ownField name with ⟨hf, hg⟩ | ⟨v, w, hf, hg, -⟩ <;> simp [hf, hg]

theorem AlikeFields.setField (h : AlikeFields A B fs gs) (name : JsString)
    (hv : Alike A B true true v w) :
    AlikeFields A B (setField name v fs) (setField name w gs) := by
  induction fs generalizing gs with
  | nil => cases h; exact .cons name hv .nil
  | cons f fs ih =>
    cases h with
    | cons other hold hs =>
      simp only [Js.setField]
      split
      · exact .cons name hv hs
      · exact .cons other hold (ih hs)

theorem AlikeFields.assignField (h : AlikeFields A B fs gs) (name : JsString)
    (hv : Alike A B true true v w) :
    AlikeFields A B (assignField name v fs) (assignField name w gs) := by
  unfold Js.assignField
  split
  · exact h
  · exact h.setField name hv

theorem requestValue_hasOwn (name : JsString) :
    ∃ fs gs, requestValue A = .obj (some requestRef) fs ∧
      requestValue B = .obj (some requestRef) gs ∧ fs.length = gs.length ∧
      hasOwn fs name = hasOwn gs name := by
  refine ⟨_, _, rfl, rfl, rfl, ?_⟩
  simp only [Js.hasOwn, Js.ownField, List.lookup_cons]
  repeat' split
  all_goals rfl

/-! ## Conversions -/

mutual
theorem Alike.toText {here within : Bool} {v w : JsValue} :
    Alike A B here within v w → toText v = toText w
  | .same _ => rfl
  | .request => by
      obtain ⟨fs, gs, hA, hB, -, hown⟩ := requestValue_hasOwn (A := A) (B := B) (js "toString")
      rw [hA, hB, Js.toText, Js.toText, hown]
  | .arr h => by rw [Js.toText, Js.toText, AlikeAll.texts h]
  | .obj h => by rw [Js.toText, Js.toText, h.hasOwn]

theorem AlikeAll.texts {vs ws : List JsValue} :
    AlikeAll A B vs ws → elementTexts vs = elementTexts ws
  | .nil => rfl
  | .cons (v := v) h hs => by
      have hrest := AlikeAll.texts hs
      have htext := Alike.toText h
      cases h with
      | same v => cases v <;> simp only [elementTexts, hrest]
      | request => simp only [requestValue, elementTexts, hrest] at *; rw [htext]
      | arr h => simp only [elementTexts, hrest, htext]
      | obj h => simp only [elementTexts, hrest, htext]
end

theorem Alike.stringOf (h : Alike A B here within v w) (host : Host) :
    stringOf host v = stringOf host w := by
  unfold Armor.stringOf
  rw [h.toText]

theorem Alike.indexNumber (h : Alike A B here within v w) (host : Host) :
    indexNumber host v = indexNumber host w := by
  have hstring := h.stringOf host
  cases h with
  | same => rfl
  | request | arr | obj => exact congrArg (· >>= fun text => pure (parseInt text)) hstring

theorem Alike.asBool (h : Alike A B here within v w) : asBool v = asBool w := by
  cases h <;> rfl

theorem Alike.asString (h : Alike A B here within v w) : asString v = asString w := by
  cases h <;> rfl

theorem Alike.toInt (h : Alike A B here within v w) : toInt v = toInt w := by
  cases h <;> rfl

theorem Alike.sizeOf (h : Alike A B here within v w) : sizeOf v = sizeOf w := by
  cases h with
  | same | request => rfl
  | arr h => simp only [Armor.sizeOf, h.length]
  | obj h => simp only [Armor.sizeOf, h.length]

/-- A test that looks at the kind of an object only is blind to the difference on both sides. -/
theorem Alike.sameValue {here' within' : Bool} {v' w' : JsValue} (h : Alike A B here within v w)
    (h' : Alike A B here' within' v' w') : sameValue v v' = sameValue w w' := by
  have hleft : Js.sameValue v v' = Js.sameValue w v' := by
    cases h with
    | same => rfl
    | request | arr | obj => cases v' <;> rfl
  have hright : Js.sameValue w v' = Js.sameValue w w' := by
    cases h' with
    | same => rfl
    | request | arr | obj => cases w <;> rfl
  exact hleft.trans hright

theorem Alike.compareNumbers {here' within' : Bool} {v' w' : JsValue} (op : BinaryOp)
    (test : Float → Float → Bool) (h : Alike A B here within v w)
    (h' : Alike A B here' within' v' w') :
    compareNumbers op test v v' = compareNumbers op test w w' := by
  have hleft : Armor.compareNumbers op test v v' = Armor.compareNumbers op test w v' := by
    cases h with
    | same => rfl
    | request | arr | obj => cases v' <;> rfl
  have hright : Armor.compareNumbers op test w v' = Armor.compareNumbers op test w w' := by
    cases h' with
    | same => rfl
    | request | arr | obj => cases w <;> rfl
  exact hleft.trans hright

theorem AlikeAll.stringListOf (h : AlikeAll A B vs ws) : stringListOf vs = stringListOf ws := by
  induction vs generalizing ws with
  | nil => cases h; rfl
  | cons v vs ih =>
    cases h with
    | cons hv hs =>
      cases hv with
      | same => cases v <;> simp only [Armor.stringListOf, ih hs]
      | request | arr | obj => rfl

theorem Alike.asStringList (h : Alike A B here within v w) : asStringList v = asStringList w := by
  cases h with
  | same | request | obj => rfl
  | arr h => exact h.stringListOf

/-! ## Lookups -/

theorem Alike.hasKey {here' within' : Bool} {k l : JsValue} (h : Alike A B here within v w)
    (hkey : Alike A B here' within' k l) (host : Host) : hasKey host v k = hasKey host w l := by
  have hstring := hkey.stringOf host
  have hindex := hkey.indexNumber host
  cases h with
  | same => cases v <;> simp only [Armor.hasKey, hstring, hindex]
  | request =>
    simp only [requestValue, Armor.hasKey, hstring]
    refine congrArg (Armor.stringOf host l >>= ·) (funext fun name => ?_)
    obtain ⟨fs, gs, hA, hB, -, hown⟩ := requestValue_hasOwn (A := A) (B := B) name
    injection hA with _ hA
    injection hB with _ hB
    rw [hA, hB, hown]
  | arr h => simp only [Armor.hasKey, hindex, h.length]
  | obj h => simp only [Armor.hasKey, hstring, h.hasOwn]

/-- A request record gives the same to a key that is neither `body` nor `params`. -/
theorem lookup_request_congr (A : RequestAttributes) (body : JsString) (params : Fields)
    {name : JsString} (hbody : name ≠ js "body") (hparams : name ≠ js "params") (host : Host)
    {key : JsValue} (hkey : toText key = some name) :
    lookup host (requestValue A) key =
      lookup host (requestValue (A.withBody body params)) key := by
  have hstring : Armor.stringOf host key = .ok name := by
    unfold Armor.stringOf
    rw [hkey]
  have hbody' : (name == js "body") = false := beq_eq_false_iff_ne.2 hbody
  have hparams' : (name == js "params") = false := beq_eq_false_iff_ne.2 hparams
  simp only [requestValue, Armor.lookup, hstring, bind, Except.bind, Js.ownField, List.lookup_cons,
    hbody', hparams', RequestAttributes.withBody, headersValue]

end Values

section Evaluation

variable {A : RequestAttributes} {body : JsString} {params : Fields}

theorem Alike.lookup {here within here' within' : Bool} {v w k l : JsValue}
    (h : Alike A (A.withBody body params) here within v w)
    (hkey : Alike A (A.withBody body params) here' within' k l) (host : Host)
    (hfield : here = true →
      k = l ∧ ∃ name, Js.toText k = some name ∧ name ≠ js "body" ∧ name ≠ js "params") :
    Lockstep (Alike A (A.withBody body params) within within) (lookup host v k)
      (lookup host w l) := by
  have hstring := hkey.stringOf host
  have hindex := hkey.indexNumber host
  cases h with
  | same =>
    have hsame : Armor.lookup host v k = Armor.lookup host v l := by
      cases v <;> simp only [Armor.lookup, hstring, hindex]
    rw [hsame]
    exact .refl .same _
  | request =>
    obtain ⟨rfl, name, hname, hbody, hparams⟩ := hfield rfl
    rw [lookup_request_congr A body params hbody hparams host hname]
    exact .refl .same _
  | arr hvs =>
    simp only [Armor.lookup, hindex, hstring, hvs.length]
    refine Lockstep.bind (.refl (fun _ => Eq.refl _) _) fun index _ hindexes => ?_
    subst hindexes
    split
    · exact .ok (hvs.getD _)
    · exact .refl .same _
  | obj hfs =>
    simp only [Armor.lookup, hstring]
    refine Lockstep.bind (.refl (fun _ => Eq.refl _) _) fun name _ hnames => ?_
    subst hnames
    rcases hfs.ownField name with ⟨hf, hg⟩ | ⟨v, w, hf, hg, hvw⟩
    · rw [hf, hg]
      exact .error _
    · rw [hf, hg]
      exact .ok hvw

/-! ## Functions -/

/-- Arguments with alike values, and of which `has` says the same. -/
structure ArgAlike (A B : RequestAttributes) (a b : Arg) : Prop where
  value : Lockstep (Alike A B true true) a.value b.value
  has : a.has = b.has

variable {args args' : List Arg} {B : RequestAttributes}

theorem requiredArg_alike (h : List.Forall₂ (ArgAlike A B) args args') (i : ℕ) :
    Lockstep (Alike A B true true) (requiredArg args i) (requiredArg args' i) := by
  unfold requiredArg
  induction h generalizing i with
  | nil => exact .error _
  | cons h hs ih =>
    cases i with
    | zero => exact h.value
    | succ i => exact ih i

theorem evalAll_alike (h : List.Forall₂ (ArgAlike A B) args args') : evalAll args = evalAll args' := by
  induction h with
  | nil => rfl
  | cons h hs ih => exact h.value.bind_eq fun _ _ _ => ih

theorem Alike.resolveEvaluateIp {here within : Bool} {v w : JsValue} (ctx : EvalContext)
    (h : Alike A B here within v w) : resolveEvaluateIp ctx v = resolveEvaluateIp ctx w := by
  cases h <;> rfl

theorem evalAddressGroup_alike (ctx : EvalContext)
    (h : List.Forall₂ (ArgAlike A B) args args') :
    evalAddressGroup ctx args = evalAddressGroup ctx args' := by
  unfold evalAddressGroup
  rw [h.length_eq]
  split
  · rfl
  refine (requiredArg_alike h 0).bind_eq fun group group' hgroup => ?_
  refine (requiredArg_alike h 1).bind_eq fun source source' hsource => ?_
  rw [hsource.resolveEvaluateIp ctx]
  cases hgroup with
  | same =>
    cases group with
    | str name =>
      cases resolveEvaluateIp ctx source' with
      | none => rfl
      | some ip =>
        simp only
        split
        · rfl
        split
        · rfl
        split
        · rfl
        refine (requiredArg_alike h 2).bind_eq fun list list' hlist => ?_
        rw [hlist.asStringList]
    | _ => rfl
  | request | arr | obj => rfl

theorem AlikeFields.wafDecision {fs gs : Fields} (h : AlikeFields A B fs gs) (ruleSet : JsString)
    (wafMatches : List WafSignatureMatch) :
    wafDecision ruleSet fs wafMatches = wafDecision ruleSet gs wafMatches := by
  have hkeys : fs.all (fun f => f.1 ∈ wafOptionKeys) = gs.all (fun f => f.1 ∈ wafOptionKeys) := by
    clear ruleSet wafMatches
    induction fs generalizing gs with
    | nil => cases h; rfl
    | cons f fs ih =>
      cases h with
      | cons name _ hs => rw [List.all_cons, List.all_cons, ih hs]
  have hsensitivity : wafSensitivity fs = wafSensitivity gs := by
    unfold wafSensitivity
    rcases h.ownField "sensitivity" with ⟨hf, hg⟩ | ⟨v, w, hf, hg, hvw⟩
    · rw [hf, hg]
    · rw [hf, hg]
      cases hvw <;> rfl
  have hids : ∀ key, wafRuleIds fs key = wafRuleIds gs key := by
    intro key
    unfold wafRuleIds
    rcases h.ownField key with ⟨hf, hg⟩ | ⟨v, w, hf, hg, hvw⟩
    · rw [hf, hg]
    · rw [hf, hg]
      cases hvw with
      | same | request | obj => rfl
      | arr hvs => exact congrArg (Option.map some) hvs.stringListOf
  unfold Armor.wafDecision
  rw [hkeys, hsensitivity, hids, hids]

theorem evalPreconfiguredWaf_alike (ctx : EvalContext)
    (h : List.Forall₂ (ArgAlike A B) args args') :
    evalPreconfiguredWaf ctx args = evalPreconfiguredWaf ctx args' := by
  cases h with
  | nil => rfl
  | cons ha hs =>
    cases hs with
    | nil => exact ha.value.bind_eq fun v w hvw => by rw [hvw.asString]
    | cons hb hs =>
      cases hs with
      | nil =>
        refine ha.value.bind_eq fun v w hvw => ?_
        rw [hvw.asString]
        refine congrArg (asString w >>= ·) (funext fun ruleSet => ?_)
        refine hb.value.bind_eq fun options options' hoptions => ?_
        cases hoptions with
        | same | arr => rfl
        | request =>
          have hheaders : js "headers" ∉ wafOptionKeys := by decide
          simp [requestValue, Armor.wafDecision, hheaders]
        | obj hfs => simp only [hfs.wafDecision]
      | cons hc hs =>
        exact congrArg (· >>= fun _ => pure false)
          (evalAll_alike (.cons ha (.cons hb (.cons hc hs))))

/-- The same surroundings of a request with another body. -/
def EvalContext.withBody (ctx : EvalContext) (body : JsString) (params : Fields) : EvalContext :=
  { ctx with attributes := ctx.attributes.withBody body params }

section Context

variable {ctx : EvalContext}

theorem evalFunction_alike (h : List.Forall₂ (ArgAlike A B) args args') (name : JsString) :
    evalFunction ctx name args = evalFunction (ctx.withBody body params) name args' := by
  have hgroup : evalAddressGroup ctx args = evalAddressGroup (ctx.withBody body params) args' :=
    evalAddressGroup_alike ctx h
  have hwaf : evalPreconfiguredWaf ctx args =
      evalPreconfiguredWaf (ctx.withBody body params) args' :=
    evalPreconfiguredWaf_alike ctx h
  have hlength := h.length_eq
  have hall := evalAll_alike h
  have hrange : (do
      let ip ← asString (← requiredArg args 0)
      let cidr ← asString (← requiredArg args 1)
      return .bool (ipInCidr ip cidr) : EvalResult JsValue) = do
      let ip ← asString (← requiredArg args' 0)
      let cidr ← asString (← requiredArg args' 1)
      return .bool (ipInCidr ip cidr) := by
    refine (requiredArg_alike h 0).bind_eq fun v w hvw => ?_
    rw [hvw.asString]
    refine congrArg (asString w >>= ·) (funext fun ip => ?_)
    refine (requiredArg_alike h 1).bind_eq fun v w hvw => ?_
    rw [hvw.asString]
  have hint : requiredArg args 0 >>= toInt = requiredArg args' 0 >>= toInt :=
    (requiredArg_alike h 0).bind_eq fun v w hvw => hvw.toInt
  have hsize : requiredArg args 0 >>= sizeOf = requiredArg args' 0 >>= sizeOf :=
    (requiredArg_alike h 0).bind_eq fun v w hvw => hvw.sizeOf
  unfold evalFunction
  rw [hgroup, hwaf, hlength, hall, hrange, hint, hsize]
  refine congrArg₂ (fun x y => if name = js "has" then x else y) (congrArg some ?_) rfl
  cases h with
  | nil => rfl
  | cons ha _ => exact congrArg (Except.map JsValue.bool) ha.has

theorem evalMethod_alike (h : List.Forall₂ (ArgAlike A B) args args') (name target : JsString) :
    evalMethod ctx name target args =
      evalMethod (ctx.withBody body params) name target args' := by
  have hstring : requiredArg args 0 >>= asString = requiredArg args' 0 >>= asString :=
    (requiredArg_alike h 0).bind_eq fun v w hvw => hvw.asString
  unfold evalMethod
  simp only [← bind_assoc, hstring]
  rfl

theorem evalCall_alike (h : List.Forall₂ (ArgAlike A B) args args') (name : Option JsString)
    {target target' : Option (EvalResult JsValue)}
    (htarget : target = none ∧ target' = none ∨ ∃ x y, target = some x ∧ target' = some y ∧
      ∃ here within, Lockstep (Alike A B here within) x y) :
    evalCall ctx name target args = evalCall (ctx.withBody body params) name target' args' := by
  have hfunction : (name.bind fun name => evalFunction ctx name args) =
      name.bind fun name => evalFunction (ctx.withBody body params) name args' :=
    congrArg name.bind (funext fun name => evalFunction_alike h name)
  unfold evalCall
  rw [hfunction]
  split
  · rfl
  · rcases htarget with ⟨rfl, rfl⟩ | ⟨x, y, rfl, rfl, here, within, hxy⟩
    · rfl
    · refine hxy.bind_eq fun v w hvw => ?_
      rw [hvw.asString]
      exact congrArg (asString w >>= ·) (funext fun text => evalMethod_alike h _ text)

/-! ## Operators -/

theorem evalBinary_alike (op : BinaryOp) {here within here' within' : Bool}
    {x y x' y' : EvalResult JsValue} (h : Lockstep (Alike A B here within) x y)
    (h' : Lockstep (Alike A B here' within') x' y') :
    evalBinary op x x' = evalBinary op y y' := by
  have hbool : x' >>= asBool = y' >>= asBool := h'.bind_eq fun v w hvw => hvw.asBool
  have hor : ∀ b : Bool, (if b then pure (.bool true) else do return .bool (← asBool (← x')) :
      EvalResult JsValue) = if b then pure (.bool true) else do return .bool (← asBool (← y')) := by
    intro b
    simp only [← bind_assoc, hbool]
  cases op with
  | or =>
    refine h.bind_eq fun v w hvw => ?_
    rw [hvw.asBool]
    exact congrArg (asBool w >>= ·) (funext hor)
  | and =>
    refine h.bind_eq fun v w hvw => ?_
    rw [hvw.asBool]
    simp only [← bind_assoc, hbool]
  | plus =>
    refine h.bind_eq fun v w hvw => ?_
    refine h'.bind_eq fun v' w' hvw' => ?_
    rw [hvw.asString, hvw'.asString]
  | eq =>
    refine h.bind_eq fun v w hvw => ?_
    refine h'.bind_eq fun v' w' hvw' => ?_
    rw [hvw.sameValue hvw']
  | ne =>
    refine h.bind_eq fun v w hvw => ?_
    refine h'.bind_eq fun v' w' hvw' => ?_
    rw [hvw.sameValue hvw']
  | lt | gt | le | ge =>
    refine h.bind_eq fun v w hvw => ?_
    exact h'.bind_eq fun v' w' hvw' => hvw.compareNumbers _ _ hvw'

theorem Alike.evalUnary {here within : Bool} {v w : JsValue} (h : Alike A B here within v w)
    (op : UnaryOp) : evalUnary op v = evalUnary op w := by
  cases h <;> cases op <;> rfl

theorem settled_alike {here within : Bool} {x y : EvalResult JsValue}
    (h : Lockstep (Alike A B here within) x y) : settled x = settled y := by
  cases h <;> rfl

/-! ## The evaluator -/

/-- Whether the value of an expression may be the request. -/
def mayBeRequest (node : Ast) : Bool := !(mayBe bodyRules node).isEmpty

/-- Whether the request may lie inside the value of an expression. -/
def requestInside (node : Ast) : Bool := !(inside bodyRules node).isEmpty

/-- An expression evaluates alike for a request and for the same one with another body. -/
def EvalsAlike (ctx : EvalContext) (body : JsString) (params : Fields) (node : Ast) : Prop :=
  Lockstep (Alike ctx.attributes (ctx.attributes.withBody body params) (mayBeRequest node)
    (requestInside node)) (evalAst ctx node) (evalAst (ctx.withBody body params) node)

variable {node : Ast} {list : List Ast} {entries : List (Ast × Ast)}

theorem EvalsAlike.widen (h : EvalsAlike ctx body params node) :
    Lockstep (Alike ctx.attributes (ctx.attributes.withBody body params) true true)
      (evalAst ctx node) (evalAst (ctx.withBody body params) node) :=
  h.mono fun _ _ => Alike.widen

theorem EvalsAlike.eq (h : EvalsAlike ctx body params node) (hbe : mayBe bodyRules node = [])
    (hinside : inside bodyRules node = []) :
    evalAst ctx node = evalAst (ctx.withBody body params) node := by
  have hlock : Lockstep Eq (evalAst ctx node) (evalAst (ctx.withBody body params) node) := by
    refine Lockstep.mono h fun v w hvw => ?_
    rw [mayBeRequest, requestInside, hbe, hinside] at hvw
    exact hvw.eq
  exact hlock.eq

theorem evalHas_alike (hfollows : follows bodyRules node = true)
    (ih : ∀ child ∈ childrenOf node, follows bodyRules child = true →
      EvalsAlike ctx body params child) :
    evalHas ctx node = evalHas (ctx.withBody body params) node := by
  cases node with
  | member object name s =>
    rw [follows, Bool.and_eq_true] at hfollows
    have hobject := ih object (List.mem_singleton_self _) hfollows.1
    refine congrArg some (Lockstep.bind_eq hobject fun v w hvw => ?_)
    exact hvw.hasKey (Alike.self _) ctx.host
  | index object key s =>
    rw [follows, Bool.and_eq_true, Bool.and_eq_true] at hfollows
    have hobject := ih object List.mem_cons_self hfollows.1.1
    have hkey := ih key (List.mem_cons_of_mem _ (List.mem_singleton_self _)) hfollows.1.2
    refine congrArg some (Lockstep.bind_eq hobject fun v w hvw => ?_)
    exact Lockstep.bind_eq hkey fun k l hkl => hvw.hasKey hkl ctx.host
  | _ => rfl

theorem evalArgs_alike
    (hlist : ∀ node ∈ list, EvalsAlike ctx body params node ∧
      evalHas ctx node = evalHas (ctx.withBody body params) node) :
    List.Forall₂ (ArgAlike ctx.attributes (ctx.attributes.withBody body params))
      (evalArgs ctx list) (evalArgs (ctx.withBody body params) list) := by
  induction list with
  | nil => exact .nil
  | cons node rest ih =>
    obtain ⟨⟨hnode, hhas⟩, hrest⟩ := List.forall_mem_cons.1 hlist
    refine .cons ⟨hnode.widen, ?_⟩ (ih hrest)
    simp only [hhas, settled_alike hnode]

theorem evalList_alike (hlist : ∀ node ∈ list, EvalsAlike ctx body params node) :
    Lockstep (AlikeAll ctx.attributes (ctx.attributes.withBody body params)) (evalList ctx list)
      (evalList (ctx.withBody body params) list) := by
  induction list with
  | nil => exact .ok .nil
  | cons node rest ih =>
    obtain ⟨hnode, hrest⟩ := List.forall_mem_cons.1 hlist
    refine hnode.widen.bind fun v w hvw => ?_
    exact (ih hrest).bind fun vs ws hvs => .ok (.cons hvw hvs)

theorem evalList_eq
    (hlist : ∀ node ∈ list, evalAst ctx node = evalAst (ctx.withBody body params) node) :
    evalList ctx list = evalList (ctx.withBody body params) list := by
  induction list with
  | nil => rfl
  | cons node rest ih =>
    obtain ⟨hnode, hrest⟩ := List.forall_mem_cons.1 hlist
    simp only [evalList, hnode, ih hrest]

theorem evalEntries_alike
    (hentries : ∀ entry ∈ entries, EvalsAlike ctx body params entry.1 ∧
      EvalsAlike ctx body params entry.2) {fs gs : Fields}
    (h : AlikeFields ctx.attributes (ctx.attributes.withBody body params) fs gs) :
    Lockstep (AlikeFields ctx.attributes (ctx.attributes.withBody body params))
      (evalEntries ctx fs entries) (evalEntries (ctx.withBody body params) gs entries) := by
  induction entries generalizing fs gs with
  | nil => exact .ok h
  | cons entry rest ih =>
    obtain ⟨⟨hkey, hvalue⟩, hrest⟩ := List.forall_mem_cons.1 hentries
    simp only [evalEntries]
    refine Lockstep.bind hkey fun k l hkl => ?_
    have hname : stringOf ctx.host k = stringOf (ctx.withBody body params).host l :=
      hkl.stringOf ctx.host
    rw [hname]
    refine Lockstep.bind (.refl (fun _ => Eq.refl _) _) fun name _ hnames => ?_
    subst hnames
    exact hvalue.widen.bind fun v w hvw => ih hrest (h.assignField name hvw)

theorem evalEntries_eq (hkeys : ∀ entry ∈ entries, EvalsAlike ctx body params entry.1)
    (hvalues : ∀ entry ∈ entries,
      evalAst ctx entry.2 = evalAst (ctx.withBody body params) entry.2) (fields : Fields) :
    evalEntries ctx fields entries = evalEntries (ctx.withBody body params) fields entries := by
  induction entries generalizing fields with
  | nil => rfl
  | cons entry rest ih =>
    obtain ⟨hkey, hkeys⟩ := List.forall_mem_cons.1 hkeys
    obtain ⟨hvalue, hvalues⟩ := List.forall_mem_cons.1 hvalues
    simp only [evalEntries]
    refine Lockstep.bind_eq hkey fun k l hkl => ?_
    have hname : stringOf ctx.host k = stringOf (ctx.withBody body params).host l :=
      hkl.stringOf ctx.host
    rw [hname, hvalue]
    simp only [ih hkeys hvalues]

/-- An access that follows the rules, to a value that may be the request, has a harmless key. -/
theorem exists_harmless {object : Ast} {key : Option JsString}
    (hfield : ((mayBe bodyRules object).all fun record => bodyRules.field record key) = true)
    (hmay : mayBeRequest object = true) :
    ∃ name, key = some name ∧ name ≠ js "body" ∧ name ≠ js "params" := by
  rw [mayBeRequest, Bool.not_eq_true', List.isEmpty_eq_false_iff_exists_mem] at hmay
  obtain ⟨record, hrecord⟩ := hmay
  have hkey : bodyRules.field record key = true := List.all_eq_true.1 hfield record hrecord
  cases key with
  | none => cases hkey
  | some name =>
    simp only [bodyRules, Option.any_some, Bool.and_eq_true, decide_eq_true_eq] at hkey
    exact ⟨name, rfl, hkey⟩

/-- **An expression that follows `bodyRules` is blind to the body.** -/
theorem evalAst_alike (ctx : EvalContext) (body : JsString) (params : Fields) (node : Ast)
    (hfollows : follows bodyRules node = true) : EvalsAlike ctx body params node := by
  induction node using Ast.induction_nodes with
  | h node ih =>
    have hchild : ∀ child ∈ childrenOf node, follows bodyRules child = true →
        EvalsAlike ctx body params child := fun child hmem =>
      ih child hmem child (self_mem_nodes child)
    have hequal : ∀ {x y : EvalResult JsValue}, x = y → Lockstep
        (Alike ctx.attributes (ctx.attributes.withBody body params) (mayBeRequest node)
          (requestInside node)) x y := by
      rintro x _ rfl
      exact .refl .same x
    cases node with
    | lit value s => exact hequal rfl
    | ident name s =>
      by_cases hname : name = js "request"
      · subst hname
        exact .ok .request
      · refine hequal ?_
        have hne : (name == js "request") = false := beq_eq_false_iff_ne.2 hname
        simp only [evalAst, toEnv, ownField, List.lookup_cons, hne]
        rfl
    | member object name s =>
      rw [follows, Bool.and_eq_true] at hfollows
      have hobject := hchild object (List.mem_singleton_self _) hfollows.1
      refine Lockstep.bind hobject fun v w hvw => ?_
      refine hvw.lookup (Alike.self _) ctx.host fun hmay => ?_
      obtain ⟨_, hkey, hname⟩ := exists_harmless hfollows.2 hmay
      obtain rfl := Option.some.inj hkey
      exact ⟨rfl, name, rfl, hname⟩
    | index object key s =>
      rw [follows, Bool.and_eq_true, Bool.and_eq_true] at hfollows
      obtain ⟨⟨hobjectFollows, hkeyFollows⟩, hfield⟩ := hfollows
      have hobject := hchild object List.mem_cons_self hobjectFollows
      have hkey := hchild key (List.mem_cons_of_mem _ (List.mem_singleton_self _)) hkeyFollows
      refine Lockstep.bind hobject fun v w hvw => ?_
      by_cases hmay : mayBeRequest object = true
      · obtain ⟨name, hlit, hname⟩ := exists_harmless hfield hmay
        obtain ⟨value, t, rfl, htext⟩ := literalKey_eq_some hlit
        exact hvw.lookup (Alike.self _) ctx.host fun _ =>
          ⟨rfl, name, htext, hname⟩
      · exact Lockstep.bind hkey fun k l hkl => hvw.lookup hkl ctx.host fun h => absurd h hmay
    | call callee args s =>
      rw [follows, Bool.and_eq_true, Bool.and_eq_true] at hfollows
      obtain ⟨⟨-, htarget⟩, hargs⟩ := hfollows
      have hlist : ∀ node ∈ args, EvalsAlike ctx body params node ∧
          evalHas ctx node = evalHas (ctx.withBody body params) node := by
        intro arg hmem
        have harg := followsAll_iff.1 hargs arg hmem
        have hmem' : arg ∈ childrenOf (.call callee args s) := List.mem_cons_of_mem _ hmem
        refine ⟨hchild arg hmem' harg, evalHas_alike harg fun child hsub => ?_⟩
        exact ih arg hmem' child (mem_nodes_of_child hsub (self_mem_nodes child))
      refine hequal (evalCall_alike (evalArgs_alike hlist) _ ?_)
      cases callee with
      | member object name s' =>
        have hobject := ih _ List.mem_cons_self object
          (mem_nodes_of_child (List.mem_singleton_self _) (self_mem_nodes _)) htarget
        exact .inr ⟨_, _, rfl, rfl, _, _, hobject⟩
      | _ => exact .inl ⟨rfl, rfl⟩
    | unary op arg s =>
      have harg := hchild arg (List.mem_singleton_self _) hfollows
      exact hequal (Lockstep.bind_eq harg fun v w hvw => hvw.evalUnary op)
    | binary op left right s =>
      rw [follows, Bool.and_eq_true] at hfollows
      exact hequal (evalBinary_alike op (hchild left List.mem_cons_self hfollows.1)
        (hchild right (List.mem_cons_of_mem _ (List.mem_singleton_self _)) hfollows.2))
    | list elements s =>
      have hlist : ∀ node ∈ elements, EvalsAlike ctx body params node := fun node hmem =>
        hchild node hmem (followsAll_iff.1 hfollows node hmem)
      by_cases hinside : insideAll bodyRules elements = []
      · have hclean := insideAll_eq_nil.1 hinside
        have heq := evalList_eq fun node hmem =>
          (hlist node hmem).eq (hclean node hmem).1 (hclean node hmem).2
        refine hequal ?_
        simp only [evalAst, heq]
      · have hwithin : requestInside (.list elements s) = true := by
          simp [requestInside, inside, hinside]
        rw [EvalsAlike, hwithin]
        exact (evalList_alike hlist).bind fun vs ws hvs => .ok (.arr hvs)
    | map entries s =>
      have hkeys : ∀ entry ∈ entries, EvalsAlike ctx body params entry.1 := fun entry hmem =>
        hchild entry.1 (List.mem_flatMap.2 ⟨entry, hmem, List.mem_cons_self⟩)
          (followsEntries_iff.1 hfollows entry hmem).1
      have hvalues : ∀ entry ∈ entries, EvalsAlike ctx body params entry.2 := fun entry hmem =>
        hchild entry.2
          (List.mem_flatMap.2 ⟨entry, hmem, List.mem_cons_of_mem _ (List.mem_singleton_self _)⟩)
          (followsEntries_iff.1 hfollows entry hmem).2
      by_cases hinside : insideValues bodyRules entries = []
      · have hclean := insideValues_eq_nil.1 hinside
        have heq := evalEntries_eq hkeys (fun entry hmem =>
          (hvalues entry hmem).eq (hclean entry hmem).1 (hclean entry hmem).2) []
        refine hequal ?_
        simp only [evalAst, heq]
      · have hwithin : requestInside (.map entries s) = true := by
          simp [requestInside, inside, hinside]
        rw [EvalsAlike, hwithin]
        exact (evalEntries_alike (fun entry hmem => ⟨hkeys entry hmem, hvalues entry hmem⟩)
          .nil).bind fun fs gs hfs => .ok (.obj hfs)

/-- It decides the same, too. -/
theorem evaluateExpression_withBody (ctx : EvalContext) (body : JsString) (params : Fields)
    {expression : JsString} (hfollows : expressionFollows bodyRules expression = true) :
    evaluateExpression (ctx.withBody body params) expression =
      evaluateExpression ctx expression := by
  unfold evaluateExpression
  cases hparse : parseExpressionAst expression with
  | error message => rfl
  | ok node =>
    simp only
    have hnode := follows_of_expressionFollows hfollows hparse
    have halike := (evalAst_alike ctx body params node hnode).widen
    generalize evalAst ctx node = x at halike
    generalize evalAst (ctx.withBody body params) node = y at halike
    cases halike with
    | error e => rfl
    | ok hvw => cases hvw <;> rfl

end Context

end Evaluation

end Kinglet.Armor
