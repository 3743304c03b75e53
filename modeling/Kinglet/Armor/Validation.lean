import Kinglet.Armor.Access
import Kinglet.Library.Outcome

/-!
# Names that evaluation may not know

The checks made when a rule is written know the functions, the methods and the fields of the request
and origin records. They do not look at identifiers, at keys in brackets and at the callee of a call
that is no name. An expression that passes the checks and has all of these in order never fails on a
name, whatever the request.
-/

namespace Kinglet.Armor

open Js Library

/-- The error says that a name is not known: a reference, a function, or a field of the request or
origin record. -/
def EvalError.isUnknownName : EvalError → Bool
  | .undeclared _ => true
  | .noSuchKey (some ref) _ => ref = originRef || ref = requestRef
  | _ => false

abbrev Known (e : EvalError) : Prop := e.isUnknownName = false

def recordFields (record : JsString) : List JsString :=
  if record = js "origin" then originFields else requestFields

/-- The identifiers are the records, their keys are literals naming a field, and a callee is a
name. -/
def nameRules : AccessRules where
  records := ["origin", "request"]
  ident name := name ∈ [js "origin", js "request"]
  field record key := key.any fun name => name ∈ recordFields record
  callee node := (calleeName node).isSome

/-! ## Values and the records in them -/

/-- The value is one of the records `be` or an object of its own, in which only records `within`
lie. -/
inductive Carries (A : RequestAttributes) : List JsString → List JsString → JsValue → Prop
  | undefined {be within : List JsString} : Carries A be within .undefined
  | null {be within : List JsString} : Carries A be within .null
  | bool {be within : List JsString} (b : Bool) : Carries A be within (.bool b)
  | num {be within : List JsString} (x : Float) : Carries A be within (.num x)
  | str {be within : List JsString} (s : JsString) : Carries A be within (.str s)
  | origin {be within : List JsString} (h : js "origin" ∈ be) :
      Carries A be within (originValue A)
  | request {be within : List JsString} (h : js "request" ∈ be) :
      Carries A be within (requestValue A)
  | arr {be within : List JsString} {ref : Option ℕ} {vs : List JsValue}
      (hfresh : ∀ r ∈ ref, 1 < r) (h : ∀ v ∈ vs, Carries A within within v) :
      Carries A be within (.arr ref vs)
  | obj {be within : List JsString} {ref : Option ℕ} {fs : Fields}
      (hfresh : ∀ r ∈ ref, 1 < r) (h : ∀ f ∈ fs, Carries A within within f.2) :
      Carries A be within (.obj ref fs)

section Values

variable {A : RequestAttributes} {be within be' within' : List JsString} {v : JsValue}

theorem Carries.mono (h : Carries A be within v) (hbe : be ⊆ be') (hwithin : within ⊆ within') :
    Carries A be' within' v := by
  induction h generalizing be' within' with
  | undefined => exact .undefined
  | null => exact .null
  | bool b => exact .bool b
  | num x => exact .num x
  | str s => exact .str s
  | origin h => exact .origin (hbe h)
  | request h => exact .request (hbe h)
  | arr hfresh _ ih => exact .arr hfresh fun v hv => ih v hv hwithin hwithin
  | obj hfresh _ ih => exact .obj hfresh fun f hf => ih f hf hwithin hwithin

mutual
/-- The parameters of a request hold none of its records. -/
theorem carries_shiftRefs (v : JsValue) : Carries A within within (shiftRefs 4 v) := by
  cases v with
  | undefined => exact .undefined
  | null => exact .null
  | bool b => exact .bool b
  | num x => exact .num x
  | str s => exact .str s
  | arr ref vs =>
    refine .arr (fun r hr => ?_) (carries_shiftElements vs)
    obtain ⟨n, -, rfl⟩ := Option.map_eq_some_iff.1 hr
    omega
  | obj ref fs =>
    refine .obj (fun r hr => ?_) (carries_shiftFields fs)
    obtain ⟨n, -, rfl⟩ := Option.map_eq_some_iff.1 hr
    omega

theorem carries_shiftElements (vs : List JsValue) :
    ∀ v ∈ shiftElements 4 vs, Carries A within within v := by
  cases vs with
  | nil => exact fun _ h => absurd h List.not_mem_nil
  | cons v vs =>
    intro w hw
    rcases List.mem_cons.1 hw with rfl | hmem
    · exact carries_shiftRefs v
    · exact carries_shiftElements vs w hmem

theorem carries_shiftFields (fs : Fields) :
    ∀ f ∈ shiftFields 4 fs, Carries A within within f.2 := by
  match fs with
  | [] => exact fun _ h => absurd h List.not_mem_nil
  | (name, v) :: fs =>
    intro g hg
    rcases List.mem_cons.1 hg with rfl | hmem
    · exact carries_shiftRefs v
    · exact carries_shiftFields fs g hmem
end

theorem mem_of_ownField {fs : Fields} {name : JsString} (h : ownField fs name = some v) :
    (name, v) ∈ fs := by
  induction fs with
  | nil => cases h
  | cons f fs ih =>
    obtain ⟨other, w⟩ := f
    simp only [ownField, List.lookup_cons] at h
    split at h
    · rename_i heq
      obtain rfl := Option.some.inj h
      rw [beq_iff_eq.1 heq]
      exact List.mem_cons_self
    · exact List.mem_cons_of_mem _ (ih h)

/-! ## Lookups -/

theorem stringOf_known (host : Host) (v : JsValue) :
    Ends Known (fun _ => True) (stringOf host v) := by
  unfold stringOf
  split
  · exact .ok trivial
  · exact .error rfl

theorem indexNumber_known (host : Host) (v : JsValue) :
    Ends Known (fun _ => True) (indexNumber host v) := by
  cases v with
  | num x => exact .ok trivial
  | _ => exact (stringOf_known host _).bind fun _ _ => .ok trivial

theorem hasKey_known (host : Host) (v k : JsValue) :
    Ends Known (fun _ => True) (hasKey host v k) := by
  cases v with
  | arr ref vs => exact (indexNumber_known host k).bind fun _ _ => .ok trivial
  | obj ref fs => exact (stringOf_known host k).bind fun _ _ => .ok trivial
  | _ => exact .ok trivial

theorem lookup_of_ownField (host : Host) {ref : Option ℕ} {fs : Fields} {k w : JsValue}
    {name : JsString} (hkey : toText k = some name) (hown : ownField fs name = some w) :
    lookup host (.obj ref fs) k = .ok w := by
  simp only [lookup, stringOf, hkey, bind, Except.bind, hown]

/-- The origin record has every field the checks know. -/
theorem lookup_originValue (host : Host) {k : JsValue} {name : JsString}
    (hkey : toText k = some name) (hname : name ∈ originFields) :
    ∃ w, lookup host (originValue A) k = .ok w ∧ Carries A be within w := by
  simp only [originFields, List.mem_cons, List.not_mem_nil, or_false] at hname
  rcases hname with rfl | rfl | rfl | rfl | rfl | rfl
  · exact ⟨_, lookup_of_ownField host hkey rfl, .str _⟩
  · exact ⟨_, lookup_of_ownField host hkey rfl, .str _⟩
  · exact ⟨_, lookup_of_ownField host hkey rfl, .str _⟩
  · exact ⟨_, lookup_of_ownField host hkey rfl, .num _⟩
  · exact ⟨_, lookup_of_ownField host hkey rfl, .str _⟩
  · exact ⟨_, lookup_of_ownField host hkey rfl, .str _⟩

theorem carries_headersValue : Carries A be within (headersValue A) := by
  refine .obj (fun r hr => by obtain rfl := Option.some.inj hr; decide) fun f hf => ?_
  obtain ⟨⟨name, value⟩, -, rfl⟩ := List.mem_map.1 hf
  exact .str value

/-- So has the request record. -/
theorem lookup_requestValue (host : Host) {k : JsValue} {name : JsString}
    (hkey : toText k = some name) (hname : name ∈ requestFields) :
    ∃ w, lookup host (requestValue A) k = .ok w ∧ Carries A be within w := by
  simp only [requestFields, List.mem_cons, List.not_mem_nil, or_false] at hname
  rcases hname with rfl | rfl | rfl | rfl | rfl | rfl | rfl
  · exact ⟨_, lookup_of_ownField host hkey rfl, carries_headersValue⟩
  · exact ⟨_, lookup_of_ownField host hkey rfl, .str _⟩
  · exact ⟨_, lookup_of_ownField host hkey rfl, .str _⟩
  · exact ⟨_, lookup_of_ownField host hkey rfl, .str _⟩
  · exact ⟨_, lookup_of_ownField host hkey rfl, .str _⟩
  · exact ⟨_, lookup_of_ownField host hkey rfl, .str _⟩
  · exact ⟨_, lookup_of_ownField host hkey rfl,
      .obj (fun r hr => by obtain rfl := Option.some.inj hr; decide) (carries_shiftFields _)⟩

/-- A lookup fails on no name if the key is a field of all records the object may be. -/
theorem Carries.lookup (h : Carries A be within v) (host : Host) {k : JsValue}
    (hfield : ∀ record ∈ be, ∃ name, toText k = some name ∧ name ∈ recordFields record) :
    Ends Known (Carries A within within) (lookup host v k) := by
  have hfresh : ∀ {ref : Option ℕ} {key : JsString}, (∀ r ∈ ref, 1 < r) →
      Known (.noSuchKey ref key) := by
    intro ref key hfresh
    cases ref with
    | none => rfl
    | some r =>
      have hr : 1 < r := hfresh r rfl
      have hne : (r = originRef || r = requestRef) = false := by
        rw [Bool.or_eq_false_iff]
        exact ⟨decide_eq_false (by unfold originRef; omega),
          decide_eq_false (by unfold requestRef; omega)⟩
      exact hne
  cases h with
  | undefined | null | bool | num | str => exact .error rfl
  | origin hbe =>
    obtain ⟨name, hkey, hname⟩ := hfield _ hbe
    obtain ⟨w, hlookup, hw⟩ := lookup_originValue (A := A) host hkey hname
    rw [hlookup]
    exact .ok hw
  | request hbe =>
    obtain ⟨name, hkey, hname⟩ := hfield _ hbe
    obtain ⟨w, hlookup, hw⟩ := lookup_requestValue (A := A) host hkey hname
    rw [hlookup]
    exact .ok hw
  | arr href hvs =>
    refine (indexNumber_known host k).bind fun index _ => ?_
    split
    · rename_i i _
      rw [List.getD_eq_getElem?_getD]
      cases hi : (_ : List JsValue)[i]? with
      | none => exact .ok .undefined
      | some w => exact .ok (hvs w (List.mem_of_getElem? hi))
    · exact (stringOf_known host k).bind fun _ _ => .error (hfresh href)
  | obj href hfs =>
    refine (stringOf_known host k).bind fun name _ => ?_
    split
    · rename_i w hown
      exact .ok (hfs _ (mem_of_ownField hown))
    · exact .error (hfresh href)

end Values

/-! ## Functions and methods -/

section Calls

/-- The argument fails on no name, however it is used. -/
structure ArgKnown (arg : Arg) : Prop where
  value : Ends Known (fun _ => True) arg.value
  has : Ends Known (fun _ => True) arg.has

variable {A : RequestAttributes} {args : List Arg} {v : JsValue}

theorem asString_known (v : JsValue) : Ends Known (fun _ => True) (asString v) := by
  cases v with
  | str => exact .ok trivial
  | _ => exact .error rfl

theorem asBool_known (v : JsValue) : Ends Known (fun _ => True) (asBool v) := by
  cases v with
  | bool => exact .ok trivial
  | _ => exact .error rfl

theorem toInt_known (v : JsValue) : Ends Known (Carries A [] []) (toInt v) := by
  cases v with
  | num x => exact .ite (fun _ => .ok (.num x)) fun _ => .error rfl
  | str s => exact .ite (fun _ => .ok (.num _)) fun _ => .error rfl
  | _ => exact .error rfl

theorem sizeOf_known (v : JsValue) : Ends Known (Carries A [] []) (sizeOf v) := by
  cases v with
  | str | arr | obj => exact .ok (.num _)
  | _ => exact .error rfl

theorem requiredArg_known (h : ∀ arg ∈ args, ArgKnown arg) (i : ℕ) :
    Ends Known (fun _ => True) (requiredArg args i) := by
  unfold requiredArg
  split
  · exact (h _ (List.mem_of_getElem? ‹_›)).value
  · exact .error rfl

theorem evalAll_known (h : ∀ arg ∈ args, ArgKnown arg) :
    Ends Known (fun _ => True) (evalAll args) := by
  induction args with
  | nil => exact .ok trivial
  | cons arg rest ih =>
    obtain ⟨harg, hrest⟩ := List.forall_mem_cons.1 h
    exact harg.value.bind fun _ _ => ih hrest

theorem evalAddressGroup_known (ctx : EvalContext) (h : ∀ arg ∈ args, ArgKnown arg) :
    Ends Known (fun _ => True) (evalAddressGroup ctx args) := by
  unfold evalAddressGroup
  refine .ite (fun _ => .error rfl) fun _ => ?_
  refine (requiredArg_known h 0).bind fun group _ => ?_
  refine (requiredArg_known h 1).bind fun source _ => ?_
  split
  · refine .ite (fun _ => .ok trivial) fun _ => ?_
    refine .ite (fun _ => .ok trivial) fun _ => ?_
    refine .ite (fun _ => .ok trivial) fun _ => ?_
    refine (requiredArg_known h 2).bind fun list _ => ?_
    split
    · exact .ok trivial
    · exact .ok trivial
  · exact .ok trivial

theorem evalPreconfiguredWaf_known (ctx : EvalContext) (h : ∀ arg ∈ args, ArgKnown arg) :
    Ends Known (fun _ => True) (evalPreconfiguredWaf ctx args) := by
  unfold evalPreconfiguredWaf
  split
  · refine (h _ List.mem_cons_self).value.bind fun ruleSet _ => ?_
    exact (asString_known ruleSet).bind fun _ _ => .ok trivial
  · refine (h _ List.mem_cons_self).value.bind fun ruleSet _ => ?_
    refine (asString_known ruleSet).bind fun _ _ => ?_
    refine (h _ (List.mem_cons_of_mem _ List.mem_cons_self)).value.bind fun options _ => ?_
    split
    · exact .ok trivial
    · exact .ok trivial
  · exact (evalAll_known h).bind fun _ _ => .ok trivial

/-- No function fails on a name. -/
theorem evalFunction_known (ctx : EvalContext) (h : ∀ arg ∈ args, ArgKnown arg) (name : JsString)
    {result : EvalResult JsValue} (hresult : evalFunction ctx name args = some result) :
    Ends Known (Carries A [] []) result := by
  unfold evalFunction at hresult
  split_ifs at hresult <;> obtain rfl := Option.some.inj hresult
  · cases args with
    | nil => exact .error rfl
    | cons arg rest => exact (h arg List.mem_cons_self).has.map fun b _ => .bool b
  · exact (evalAddressGroup_known ctx h).map fun b _ => .bool b
  · exact (evalPreconfiguredWaf_known ctx h).map fun b _ => .bool b
  · exact (evalAll_known h).bind fun _ _ => .ok (.bool _)
  · exact (evalAll_known h).bind fun _ _ => .ok (.bool _)
  · exact (evalAll_known h).bind fun _ _ => .ok (.bool _)
  · refine (requiredArg_known h 0).bind fun ip _ => ?_
    refine (asString_known ip).bind fun _ _ => ?_
    refine (requiredArg_known h 1).bind fun cidr _ => ?_
    exact (asString_known cidr).bind fun _ _ => .ok (.bool _)
  · exact (requiredArg_known h 0).bind fun v _ => toInt_known v
  · exact (requiredArg_known h 0).bind fun v _ => sizeOf_known v

/-- The evaluator has every function the checks know. -/
theorem evalFunction_ne_none (ctx : EvalContext) {name : JsString} (hname : name ∈ knownFunctions)
    (args : List Arg) : evalFunction ctx name args ≠ none := by
  simp only [knownFunctions, List.mem_cons, List.not_mem_nil, or_false] at hname
  rcases hname with rfl | rfl | rfl | rfl | rfl | rfl | rfl | rfl | rfl | rfl | rfl <;>
    exact Option.some_ne_none _

/-- It has every method the checks know. -/
theorem evalMethod_known (ctx : EvalContext) {name : JsString} (hname : name ∈ stringMethods)
    (target : JsString) (h : ∀ arg ∈ args, ArgKnown arg) :
    Ends Known (Carries A [] []) (evalMethod ctx name target args) := by
  have htest : ∀ test : JsString → Bool, Ends Known (Carries A [] []) (do
      return .bool (test (← asString (← requiredArg args 0)))) := fun test =>
    (requiredArg_known h 0).bind fun v _ => (asString_known v).bind fun _ _ => .ok (.bool _)
  unfold evalMethod
  refine .ite (fun _ => htest fun text => includes target text) fun h₁ => ?_
  refine .ite (fun _ => htest fun text => startsWith target text) fun h₂ => ?_
  refine .ite (fun _ => htest fun text => endsWith target text) fun h₃ => ?_
  refine .ite (fun _ => ?_) fun h₄ => ?_
  · refine (requiredArg_known h 0).bind fun v _ => (asString_known v).bind fun pattern _ => ?_
    refine .ite (fun _ => .error rfl) fun _ => ?_
    split
    · exact .ok (.bool _)
    · exact .error rfl
  refine .ite (fun _ => .ok (.str _)) fun h₅ => ?_
  refine .ite (fun _ => .ok (.str _)) fun h₆ => ?_
  refine .ite (fun _ => .ok (.str _)) fun h₇ => ?_
  refine .ite (fun _ => .ok (.str _)) fun h₈ => ?_
  refine .ite (fun _ => .ok (.str _)) fun h₉ => ?_
  refine .ite (fun _ => .ok (.str _)) fun h₁₀ => ?_
  simp only [stringMethods, List.mem_cons, List.not_mem_nil, h₁, h₂, h₃, h₄, h₅, h₆, h₇, h₈, h₉,
    h₁₀, or_self] at hname

/-- A call of a function, or of a method of something, fails on no name. -/
theorem evalCall_known (ctx : EvalContext) (h : ∀ arg ∈ args, ArgKnown arg) {name : JsString}
    {target : Option (EvalResult JsValue)}
    (hcall : name ∈ knownFunctions ∨
      name ∈ stringMethods ∧ ∃ x, target = some x ∧ Ends Known (fun _ => True) x) :
    Ends Known (Carries A [] []) (evalCall ctx (some name) target args) := by
  unfold evalCall
  rw [Option.bind_some]
  cases hfunction : evalFunction ctx name args with
  | some result => exact evalFunction_known ctx h name hfunction
  | none =>
    rcases hcall with hknown | ⟨hmethod, x, rfl, hx⟩
    · exact absurd hfunction (evalFunction_ne_none ctx hknown args)
    · exact hx.bind fun v _ => (asString_known v).bind fun text _ =>
        evalMethod_known ctx hmethod text h

end Calls

/-! ## What the checks establish -/

section Checks

variable {host : Host}

theorem checkNode_of_checkNodes {list : List Ast} (h : checkNodes host list = .ok ()) :
    ∀ node ∈ list, checkNode host node = .ok () := by
  induction list with
  | nil => exact fun _ hmem => absurd hmem List.not_mem_nil
  | cons node rest ih =>
    unfold checkNodes at h
    cases hnode : checkNode host node with
    | error message =>
      rw [hnode] at h
      cases h
    | ok =>
      rw [hnode] at h
      exact List.forall_mem_cons.2 ⟨hnode, ih h⟩

/-- A checked call whose callee is a name calls a function, or a method of some object. -/
theorem callee_of_checkNode {callee : Ast} {args : List Ast} {s : Span}
    (h : checkNode host (.call callee args s) = .ok ()) {name : JsString}
    (hname : calleeName callee = some name) :
    (∃ t, callee = .ident name t) ∧ name ∈ knownFunctions ∨
      (∃ object t, callee = .member object name t) ∧ name ∈ stringMethods := by
  simp only [checkNode, checkCall, hname] at h
  cases hmatches : checkMatches host (.call callee args s) with
  | error message =>
    rw [hmatches] at h
    cases h
  | ok =>
    rw [hmatches] at h
    by_cases hquery : name = js "query_params"
    · simp [hquery, bind, Except.bind, throw, throwThe, MonadExceptOf.throw] at h
    by_cases hmacro : name ∈ celMacros
    · simp [hquery, hmacro, bind, Except.bind, throw, throwThe, MonadExceptOf.throw] at h
    cases callee with
    | ident other t =>
      obtain rfl := Option.some.inj hname
      by_cases hknown : other ∈ knownFunctions
      · exact .inl ⟨⟨t, rfl⟩, hknown⟩
      · simp [hquery, hmacro, hknown, bind, Except.bind, pure, throw, throwThe, MonadExceptOf.throw] at h
    | member object other t =>
      obtain rfl := Option.some.inj hname
      by_cases hmethod : other ∈ stringMethods
      · exact .inr ⟨⟨object, t, rfl⟩, hmethod⟩
      · simp [hquery, hmacro, hmethod, bind, Except.bind, pure, throw, throwThe, MonadExceptOf.throw] at h
    | _ => cases hname

theorem checkNodes_of_validateExpression {expression : JsString} {tree : Ast}
    (h : validateExpression host expression = .ok ())
    (hparse : parseExpressionAst expression = .ok tree) :
    checkNodes host (nodes tree) = .ok () := by
  unfold validateExpression at h
  split at h
  · cases h
  · rw [hparse] at h
    simp only [checkWriteTimeConstraints, bind, Except.bind, pure, Except.pure] at h
    cases hnodes : checkNodes host (nodes tree) with
    | error message =>
      rw [hnodes] at h
      cases h
    | ok => rfl

end Checks

/-! ## The evaluator -/

/-- An expression evaluates without failing on a name, to a value that carries no other records than
it may. -/
def EvalsKnown (ctx : EvalContext) (node : Ast) : Prop :=
  Ends Known (Carries ctx.attributes (mayBe nameRules node) (inside nameRules node))
    (evalAst ctx node)

section Evaluation

variable {ctx : EvalContext} {node : Ast} {list : List Ast} {entries : List (Ast × Ast)}

theorem EvalsKnown.any (h : EvalsKnown ctx node) : Ends Known (fun _ => True) (evalAst ctx node) :=
  h.mono fun _ _ => trivial

theorem settled_known {x : EvalResult JsValue} (h : Ends Known (fun _ => True) x) :
    Ends Known (fun _ => True) (settled x) := by
  cases h with
  | ok => exact .ok trivial
  | error he => exact .ite (fun _ => .ok trivial) fun _ => .error he

theorem evalHas_known (ih : ∀ child ∈ childrenOf node, follows nameRules child = true →
      EvalsKnown ctx child) (hfollows : follows nameRules node = true)
    {result : EvalResult Bool} (hresult : evalHas ctx node = some result) :
    Ends Known (fun _ => True) result := by
  cases node with
  | member object name s =>
    rw [follows, Bool.and_eq_true] at hfollows
    obtain rfl := Option.some.inj hresult
    exact (ih object (List.mem_singleton_self _) hfollows.1).any.bind fun v _ =>
      hasKey_known ctx.host v _
  | index object key s =>
    rw [follows, Bool.and_eq_true, Bool.and_eq_true] at hfollows
    obtain rfl := Option.some.inj hresult
    refine (ih object List.mem_cons_self hfollows.1.1).any.bind fun v _ => ?_
    exact (ih key (List.mem_cons_of_mem _ (List.mem_singleton_self _)) hfollows.1.2).any.bind
      fun k _ => hasKey_known ctx.host v k
  | _ => cases hresult

theorem evalArgs_known (hlist : ∀ node ∈ list, EvalsKnown ctx node ∧
      ∀ result, evalHas ctx node = some result → Ends Known (fun _ => True) result) :
    ∀ arg ∈ evalArgs ctx list, ArgKnown arg := by
  induction list with
  | nil => exact fun _ hmem => absurd hmem List.not_mem_nil
  | cons node rest ih =>
    obtain ⟨⟨hnode, hhas⟩, hrest⟩ := List.forall_mem_cons.1 hlist
    refine List.forall_mem_cons.2 ⟨⟨hnode.any, ?_⟩, ih hrest⟩
    cases hresult : evalHas ctx node with
    | none => exact settled_known hnode.any
    | some result => exact hhas result hresult

theorem evalList_known {records : List JsString}
    (hlist : ∀ node ∈ list, Ends Known (Carries ctx.attributes records records)
      (evalAst ctx node)) :
    Ends Known (fun vs => ∀ v ∈ vs, Carries ctx.attributes records records v)
      (evalList ctx list) := by
  induction list with
  | nil => exact .ok fun _ hmem => absurd hmem List.not_mem_nil
  | cons node rest ih =>
    obtain ⟨hnode, hrest⟩ := List.forall_mem_cons.1 hlist
    refine hnode.bind fun v hv => (ih hrest).bind fun vs hvs => ?_
    exact .ok (List.forall_mem_cons.2 ⟨hv, hvs⟩)

theorem forall_mem_assignField {P : JsValue → Prop} {fs : Fields} (h : ∀ f ∈ fs, P f.2)
    (name : JsString) {v : JsValue} (hv : P v) : ∀ f ∈ assignField name v fs, P f.2 := by
  unfold assignField
  split
  · exact h
  · induction fs with
    | nil => exact List.forall_mem_cons.2 ⟨hv, fun _ hmem => absurd hmem List.not_mem_nil⟩
    | cons f fs ih =>
      obtain ⟨hf, hfs⟩ := List.forall_mem_cons.1 h
      simp only [setField]
      split
      · exact List.forall_mem_cons.2 ⟨hv, hfs⟩
      · exact List.forall_mem_cons.2 ⟨hf, ih hfs⟩

theorem evalEntries_known {records : List JsString}
    (hkeys : ∀ entry ∈ entries, EvalsKnown ctx entry.1)
    (hvalues : ∀ entry ∈ entries, Ends Known (Carries ctx.attributes records records)
      (evalAst ctx entry.2)) {fs : Fields}
    (hfs : ∀ f ∈ fs, Carries ctx.attributes records records f.2) :
    Ends Known (fun gs => ∀ f ∈ gs, Carries ctx.attributes records records f.2)
      (evalEntries ctx fs entries) := by
  induction entries generalizing fs with
  | nil => exact .ok hfs
  | cons entry rest ih =>
    obtain ⟨hkey, hkeys⟩ := List.forall_mem_cons.1 hkeys
    obtain ⟨hvalue, hvalues⟩ := List.forall_mem_cons.1 hvalues
    simp only [evalEntries]
    refine hkey.any.bind fun k _ => (stringOf_known ctx.host k).bind fun name _ => ?_
    exact hvalue.bind fun v hv => ih hkeys hvalues (forall_mem_assignField hfs name hv)

theorem evalBinary_known (op : BinaryOp) {A : RequestAttributes} {be within : List JsString}
    {x y : EvalResult JsValue} (hx : Ends Known (fun _ => True) x)
    (hy : Ends Known (fun _ => True) y) : Ends Known (Carries A be within) (evalBinary op x y) := by
  have hcompare : ∀ op test v w, Ends Known (Carries A be within) (compareNumbers op test v w) := by
    intro op test v w
    unfold compareNumbers
    split
    · exact .ok (.bool _)
    · exact .error rfl
  have hsecond : Ends Known (Carries A be within) (do return .bool (← asBool (← y))) :=
    hy.bind fun w _ => (asBool_known w).bind fun _ _ => .ok (.bool _)
  cases op with
  | or =>
    refine hx.bind fun v _ => (asBool_known v).bind fun b _ => ?_
    exact .ite (fun _ => .ok (.bool _)) fun _ => hsecond
  | and =>
    refine hx.bind fun v _ => (asBool_known v).bind fun b _ => ?_
    exact .ite (fun _ => .ok (.bool _)) fun _ => hsecond
  | plus =>
    refine hx.bind fun v _ => hy.bind fun w _ => (asString_known v).bind fun _ _ => ?_
    exact (asString_known w).bind fun _ _ => .ok (.str _)
  | eq | ne => exact hx.bind fun v _ => hy.bind fun w _ => .ok (.bool _)
  | lt | gt | le | ge => exact hx.bind fun v _ => hy.bind fun w _ => hcompare _ _ v w

theorem evalUnary_known (op : UnaryOp) {A : RequestAttributes} {be within : List JsString}
    (v : JsValue) : Ends Known (Carries A be within) (evalUnary op v) := by
  cases op with
  | not => exact (asBool_known v).bind fun _ _ => .ok (.bool _)
  | minus =>
    cases v with
    | num x => exact .ok (.num _)
    | _ => exact .error rfl

/-- The key of an access that follows the rules is a field of every record the object may be. -/
theorem field_of_follows {object : Ast} {key : Option JsString}
    (h : ((mayBe nameRules object).all fun record => nameRules.field record key) = true) :
    ∀ record ∈ mayBe nameRules object, ∃ name, key = some name ∧ name ∈ recordFields record := by
  intro record hmem
  have hkey := List.all_eq_true.1 h record hmem
  cases key with
  | none => cases hkey
  | some name => exact ⟨name, rfl, of_decide_eq_true hkey⟩

/-- **A checked expression that follows `nameRules` fails on no name.** -/
theorem evalAst_known (ctx : EvalContext) {host : Host} (node : Ast)
    (hchecked : ∀ below ∈ nodes node, checkNode host below = .ok ())
    (hfollows : follows nameRules node = true) : EvalsKnown ctx node := by
  induction node using Ast.induction_nodes with
  | h node ih =>
    have hbelow : ∀ child ∈ childrenOf node, ∀ below ∈ nodes child,
        follows nameRules below = true → EvalsKnown ctx below := fun child hchild below hmem =>
      ih child hchild below hmem fun n hn =>
        hchecked n (mem_nodes_of_child hchild (mem_nodes_trans hmem hn))
    have hchild : ∀ child ∈ childrenOf node, follows nameRules child = true →
        EvalsKnown ctx child := fun child hmem => hbelow child hmem child (self_mem_nodes child)
    cases node with
    | lit value s =>
      cases value with
      | str text => exact .ok (.str text)
      | num x => exact .ok (.num x)
      | bool b => exact .ok (.bool b)
    | ident name s =>
      have hmem : name ∈ [js "origin", js "request"] := of_decide_eq_true hfollows
      rcases List.mem_cons.1 hmem with rfl | hmem
      · exact .ok (.origin (by simp [mayBe, nameRules]))
      · obtain rfl := List.mem_singleton.1 hmem
        exact .ok (.request (by simp [mayBe, nameRules]))
    | member object name s =>
      rw [follows, Bool.and_eq_true] at hfollows
      refine Ends.bind (hchild object (List.mem_singleton_self _) hfollows.1) fun v hv => ?_
      refine hv.lookup ctx.host fun record hmem => ?_
      obtain ⟨_, hkey, hname⟩ := field_of_follows hfollows.2 record hmem
      obtain rfl := Option.some.inj hkey
      exact ⟨name, rfl, hname⟩
    | index object key s =>
      rw [follows, Bool.and_eq_true, Bool.and_eq_true] at hfollows
      obtain ⟨⟨hobject, hkey⟩, hfield⟩ := hfollows
      have hkeyKnown :=
        hchild key (List.mem_cons_of_mem _ (List.mem_singleton_self _)) hkey
      refine Ends.bind (hchild object List.mem_cons_self hobject) fun v hv => ?_
      cases hmay : mayBe nameRules object with
      | nil =>
        rw [hmay] at hv
        exact hkeyKnown.any.bind fun k _ => hv.lookup ctx.host fun _ hmem =>
          absurd hmem List.not_mem_nil
      | cons record rest =>
        -- the object may be a record, so the key is a literal
        have hrecord : record ∈ mayBe nameRules object := hmay ▸ List.mem_cons_self
        obtain ⟨name, hlit, -⟩ := field_of_follows hfield record hrecord
        obtain ⟨value, t, rfl, -⟩ := literalKey_eq_some hlit
        exact hv.lookup ctx.host (field_of_follows hfield)
    | call callee args s =>
      rw [follows, Bool.and_eq_true, Bool.and_eq_true] at hfollows
      obtain ⟨⟨hcallee, htarget⟩, hargs⟩ := hfollows
      obtain ⟨name, hname⟩ := Option.isSome_iff_exists.1 hcallee
      have hargsKnown : ∀ arg ∈ evalArgs ctx args, ArgKnown arg := by
        refine evalArgs_known fun arg hmem => ?_
        have hmem' : arg ∈ childrenOf (.call callee args s) := List.mem_cons_of_mem _ hmem
        have harg := followsAll_iff.1 hargs arg hmem
        refine ⟨hchild arg hmem' harg, fun result => evalHas_known (fun sub hsub => ?_) harg⟩
        exact hbelow arg hmem' sub (mem_nodes_of_child hsub (self_mem_nodes sub))
      refine Ends.mono ?_ fun v hv => Carries.mono hv (List.nil_subset _) (List.nil_subset _)
      rw [evalAst, hname]
      refine evalCall_known ctx hargsKnown ?_
      rcases callee_of_checkNode (hchecked _ (self_mem_nodes _)) hname with
        ⟨-, hfunction⟩ | ⟨⟨object, t, rfl⟩, hmethod⟩
      · exact .inl hfunction
      · have hobject := hbelow _ List.mem_cons_self object
          (mem_nodes_of_child (List.mem_singleton_self _) (self_mem_nodes _)) htarget
        exact .inr ⟨hmethod, _, rfl, hobject.any⟩
    | unary op arg s =>
      exact (hchild arg (List.mem_singleton_self _) hfollows).any.bind fun v _ =>
        evalUnary_known op v
    | binary op left right s =>
      rw [follows, Bool.and_eq_true] at hfollows
      exact evalBinary_known op (hchild left List.mem_cons_self hfollows.1).any
        (hchild right (List.mem_cons_of_mem _ (List.mem_singleton_self _)) hfollows.2).any
    | list elements s =>
      have hlist : ∀ node ∈ elements, Ends Known (Carries ctx.attributes
          (insideAll nameRules elements) (insideAll nameRules elements)) (evalAst ctx node) := by
        intro node hmem
        have hnode := hchild node hmem (followsAll_iff.1 hfollows node hmem)
        refine Ends.mono hnode fun v hv => hv.mono (fun r hr => ?_) fun r hr => ?_
        · exact mem_insideAll.2 ⟨node, hmem, .inl hr⟩
        · exact mem_insideAll.2 ⟨node, hmem, .inr hr⟩
      exact (evalList_known hlist).bind fun vs hvs =>
        .ok (.arr (fun _ h => absurd h (Option.not_mem_none _)) hvs)
    | map entries s =>
      have hkeys : ∀ entry ∈ entries, EvalsKnown ctx entry.1 := fun entry hmem =>
        hchild entry.1 (List.mem_flatMap.2 ⟨entry, hmem, List.mem_cons_self⟩)
          (followsEntries_iff.1 hfollows entry hmem).1
      have hvalues : ∀ entry ∈ entries, Ends Known (Carries ctx.attributes
          (insideValues nameRules entries) (insideValues nameRules entries))
          (evalAst ctx entry.2) := by
        intro entry hmem
        have hvalue := hchild entry.2
          (List.mem_flatMap.2 ⟨entry, hmem, List.mem_cons_of_mem _ (List.mem_singleton_self _)⟩)
          (followsEntries_iff.1 hfollows entry hmem).2
        refine Ends.mono hvalue fun v hv => hv.mono (fun r hr => ?_) fun r hr => ?_
        · exact mem_insideValues.2 ⟨entry, hmem, .inl hr⟩
        · exact mem_insideValues.2 ⟨entry, hmem, .inr hr⟩
      refine (evalEntries_known hkeys hvalues fun _ h => absurd h List.not_mem_nil).bind
        fun fs hfs => ?_
      exact .ok (.obj (fun _ h => absurd h (Option.not_mem_none _)) hfs)

end Evaluation

/-! ## Soundness of the checks -/

/-- Whether evaluating an expression fails on a name that is not known. -/
def failsOnName (ctx : EvalContext) (expression : JsString) : Bool :=
  match parseExpressionAst expression with
  | .error _ => false
  | .ok tree =>
      match evalAst ctx tree with
      | .ok _ => false
      | .error e => e.isUnknownName

/-- An expression that passes the checks fails on no name, whatever the request. -/
def ValidationSound (host : Host) : Prop :=
  ∀ expression, validateExpression host expression = .ok () →
    ∀ ctx : EvalContext, ctx.host = host → failsOnName ctx expression = false

/-- **Soundness of the checks.** It holds of every expression in which the identifiers that are
evaluated are the two records, they are accessed by their fields, and calls are made by name. -/
theorem validated_fails_on_no_name (host : Host) {expression : JsString}
    (hvalid : validateExpression host expression = .ok ())
    (hnames : expressionFollows nameRules expression = true) (ctx : EvalContext) : failsOnName ctx expression = false := by
  unfold failsOnName
  cases hparse : parseExpressionAst expression with
  | error message => rfl
  | ok tree =>
      have hchecked := checkNode_of_checkNodes (checkNodes_of_validateExpression hvalid hparse)
      have hknown := evalAst_known ctx tree hchecked
        (follows_of_expressionFollows hnames hparse)
      rw [EvalsKnown] at hknown
      cases heval : evalAst ctx tree with
      | ok v => simp only [heval]
      | error e =>
          rw [heval] at hknown
          simp only [heval]
          exact hknown.of_error

theorem validated_fails_on_no_name_path :
    failsOnName ⟨asciiHost, sampleRequest, none⟩
      "request.path.startsWith('/admin') && origin.asn == 1" = false :=
  validated_fails_on_no_name asciiHost (by decide +kernel) (by decide +kernel)
    ⟨asciiHost, sampleRequest, none⟩

/-- The checks let an identifier pass that nothing declares. -/
theorem not_validationSound : ¬ ValidationSound asciiHost := fun h =>
  absurd (h "foo == 1" (by decide +kernel) ⟨asciiHost, sampleRequest, none⟩ rfl)
    (by decide +kernel)

-- they let a field in brackets and a callee that is no name pass, too
example : validateExpression asciiHost "request['nope'] == 'x'" = .ok () ∧
    failsOnName ⟨asciiHost, sampleRequest, none⟩ "request['nope'] == 'x'" = true := by
  decide +kernel
example : validateExpression asciiHost "'a'('b')" = .ok () ∧
    failsOnName ⟨asciiHost, sampleRequest, none⟩ "'a'('b')" = true := by
  decide +kernel

end Kinglet.Armor
