import StencilRtl.Proofs.Document.Records

/-!
# Expressions Read Back

The documents of an expression, and the expression each of them is read as.

An expression has more than one document because the kind of a call may be left out when
it is the usual one, at every call by itself. A derivation of `HasDocument` says at which
calls that was done, so the proofs go along derivations. Floating point constants have no
document here: the digits they are written with are not always read as the same number.

Reading an expression is bounded by its nesting. What stands inside an expression nests
less deeply, so the bound that is passed down is large enough again.

## Main definitions

* `Expr.HasDocument`: What an expression may be written as.

## Theorems

* `Expr.read?_document`: Every document of an expression is read as the expression.
* `Expr.abridges_of_hasDocument`: Every document can be read and is no deeper than the
  full one.
* `Expr.hasDocument_toJson`: The full document is one of them.
-/

namespace StencilRtl

open Json (written)

/-! ## Names and types -/

theorem BinaryOp.ofJson?_text (inner : Bool) (op : BinaryOp) :
    BinaryOp.ofJson? inner (.text op.text) = some op := by
  cases op <;> rfl

theorem CallType.ofJson?_text (k : CallType) : CallType.ofJson? (.text k.text) = some k := by
  cases k <;> rfl

theorem ScalarCode.choice?_text (inner : Bool) (code : ScalarCode) :
    Json.choice? inner (ScalarCode.all.map ScalarCode.text) (.text code.text)
      = some code.text := by
  cases code <;> rfl

theorem ScalarCode.find?_text (code : ScalarCode) :
    (ScalarCode.all.find? fun c => c.text = code.text) = some code := by
  cases code <;> rfl

theorem ScalarType.ofJson?_toJson (inner : Bool) (t : ScalarType) :
    ScalarType.ofJson? inner t.toJson = some t := by
  have hfields := Json.fields?_written ["code", "bits"]
    [("code", some (.text t.code.text)), ("bits", some (.nat t.width))] rfl (by decide)
  simp only [Json.written_some, Json.written_nil] at hfields
  rw [toJson, ofJson?, hfields]
  simp only [List.map_cons, List.map_nil, Option.bind_eq_bind, Option.bind_some, Json.required,
    ScalarCode.choice?_text, ScalarCode.find?_text, width, Json.word32?_nat]
  rfl

theorem ScalarType.abridges_toJson (t : ScalarType) : Json.Abridges t.toJson t.toJson := by
  have hbits : t.width < UInt64.size :=
    Nat.lt_trans t.bits.toNat_lt (by decide)
  have hfields : List.Forall₂ (fun full field => Json.FieldAbridges full.2 field.2)
      [("code", .text t.code.text), ("bits", .nat t.width)]
      [("code", some (.text t.code.text)), ("bits", some (.nat t.width))] :=
    .cons (.kept (Json.abridges_text _)) (.cons (.kept (Json.abridges_nat hbits)) .nil)
  exact Json.abridges_object hfields

namespace Expr

mutual

/-- The documents of an expression without floating point constants. The kind of a call
    may be left out when it is an intrinsic. -/
inductive HasDocument : Expr → Json → Prop where
  | intImm (t : ScalarType) (v : Int64) :
      HasDocument (.intImm t v)
        (.tagged "IntImm" (written [("ty", some t.toJson), ("value", some (.int v.toInt))]))
  | uintImm (t : ScalarType) (v : UInt64) :
      HasDocument (.uintImm t v)
        (.tagged "UIntImm" (written [("ty", some t.toJson), ("value", some (.nat v.toNat))]))
  | textImm (v : String) :
      HasDocument (.textImm v) (.tagged "StringImm" (written [("value", some (.text v))]))
  | var (t : ScalarType) (n : String) :
      HasDocument (.var t n)
        (.tagged "Var" (written [("ty", some t.toJson), ("name", some (.text n))]))
  | cast (t : ScalarType) {v : Expr} {jv : Json} (hv : HasDocument v jv) :
      HasDocument (.cast t v)
        (.tagged "Cast" (written [("ty", some t.toJson), ("value", some jv)]))
  | binary (op : BinaryOp) {a b : Expr} {ja jb : Json} (ha : HasDocument a ja)
      (hb : HasDocument b jb) :
      HasDocument (.binary op a b)
        (.tagged "Binary"
          (written [("op", some (.text op.text)), ("a", some ja), ("b", some jb)]))
  | not {a : Expr} {ja : Json} (ha : HasDocument a ja) :
      HasDocument (.not a) (.tagged "Not" (written [("a", some ja)]))
  | select {c t f : Expr} {jc jt jf : Json} (hc : HasDocument c jc) (ht : HasDocument t jt)
      (hf : HasDocument f jf) :
      HasDocument (.select c t f)
        (.tagged "Select"
          (written [("condition", some jc), ("true_value", some jt), ("false_value", some jf)]))
  | letIn (n : String) {v b : Expr} {jv jb : Json} (hv : HasDocument v jv)
      (hb : HasDocument b jb) :
      HasDocument (.letIn n v b)
        (.tagged "Let"
          (written [("name", some (.text n)), ("value", some jv), ("body", some jb)]))
  | call (t : ScalarType) (n : String) {args : List Expr} {jargs : List Json} {k : CallType}
      {jk : Option Json} (hargs : ListHasDocuments args jargs)
      (hk : Json.Defaults .intrinsic k (.text k.text) jk) :
      HasDocument (.call t n args k)
        (.tagged "Call"
          (written [("ty", some t.toJson), ("name", some (.text n)), ("args", some (.list jargs)),
            ("call_type", jk)]))
  | load (t : ScalarType) (n : String) {i : Expr} {ji : Json} (hi : HasDocument i ji) :
      HasDocument (.load t n i)
        (.tagged "Load"
          (written [("ty", some t.toJson), ("name", some (.text n)), ("index", some ji)]))

/-- The documents of a list of expressions. -/
inductive ListHasDocuments : List Expr → List Json → Prop where
  | nil : ListHasDocuments [] []
  | cons {e : Expr} {j : Json} {es : List Expr} {js : List Json} (he : HasDocument e j)
      (hes : ListHasDocuments es js) : ListHasDocuments (e :: es) (j :: js)

end

/-! ## Reading -/

theorem fieldNames_proper :
    ∀ tag ∈ tags, (fieldNames tag).Nodup ∧ "node" ∉ fieldNames tag := by decide

mutual

/-- Every document of an expression is read as the expression, with a bound that its
    nesting stays below. -/
theorem read?_document : ∀ {e : Expr} {j : Json}, HasDocument e j → ∀ {levels : Nat}
    (inner : Bool), j.nesting < levels → read? levels inner j = some e
  | _, _, .intImm t v, levels + 1, inner, _ => by
      rcases Json.variant?_written fieldNames_proper "IntImm"
        [("ty", some t.toJson), ("value", some (.int v.toInt))]
        (by decide) rfl inner with ⟨htag, hfields⟩
      rw [read?]
      refine Option.bind_eq_some_iff.mpr ⟨_, htag, Option.bind_eq_some_iff.mpr ⟨_, hfields, ?_⟩⟩
      simp [Json.required, ScalarType.ofJson?_toJson, Json.signed64?_int]
  | _, _, .uintImm t v, levels + 1, inner, _ => by
      rcases Json.variant?_written fieldNames_proper "UIntImm"
        [("ty", some t.toJson), ("value", some (.nat v.toNat))]
        (by decide) rfl inner with ⟨htag, hfields⟩
      rw [read?]
      refine Option.bind_eq_some_iff.mpr ⟨_, htag, Option.bind_eq_some_iff.mpr ⟨_, hfields, ?_⟩⟩
      simp [Json.required, ScalarType.ofJson?_toJson, Json.word64?_nat]
  | _, _, .textImm v, levels + 1, inner, _ => by
      rcases Json.variant?_written fieldNames_proper "StringImm"
        [("value", some (.text v))]
        (by decide) rfl inner with ⟨htag, hfields⟩
      rw [read?]
      refine Option.bind_eq_some_iff.mpr ⟨_, htag, Option.bind_eq_some_iff.mpr ⟨_, hfields, ?_⟩⟩
      simp [Json.required, Json.text?]
  | _, _, .var t n, levels + 1, inner, _ => by
      rcases Json.variant?_written fieldNames_proper "Var"
        [("ty", some t.toJson), ("name", some (.text n))]
        (by decide) rfl inner with ⟨htag, hfields⟩
      rw [read?]
      refine Option.bind_eq_some_iff.mpr ⟨_, htag, Option.bind_eq_some_iff.mpr ⟨_, hfields, ?_⟩⟩
      simp [Json.required, ScalarType.ofJson?_toJson, Json.text?]
  | _, _, @HasDocument.cast t _ jv hv, levels + 1, inner, hlevels => by
      have hvalue := read?_document hv true
        (Json.nesting_lt_levels "value" (by simp) hlevels)
      rcases Json.variant?_written fieldNames_proper "Cast"
        [("ty", some t.toJson), ("value", some jv)]
        (by decide) rfl inner with ⟨htag, hfields⟩
      rw [read?]
      refine Option.bind_eq_some_iff.mpr ⟨_, htag, Option.bind_eq_some_iff.mpr ⟨_, hfields, ?_⟩⟩
      simp [Json.required, ScalarType.ofJson?_toJson, hvalue]
  | _, _, @HasDocument.binary op _ _ ja jb ha hb, levels + 1, inner, hlevels => by
      have hleft := read?_document ha true
        (Json.nesting_lt_levels "a" (by simp) hlevels)
      have hright := read?_document hb true
        (Json.nesting_lt_levels "b" (by simp) hlevels)
      rcases Json.variant?_written fieldNames_proper "Binary"
        [("op", some (.text op.text)), ("a", some ja), ("b", some jb)]
        (by decide) rfl inner with ⟨htag, hfields⟩
      rw [read?]
      refine Option.bind_eq_some_iff.mpr ⟨_, htag, Option.bind_eq_some_iff.mpr ⟨_, hfields, ?_⟩⟩
      simp [Json.required, BinaryOp.ofJson?_text, hleft, hright]
  | _, _, @HasDocument.not _ ja ha, levels + 1, inner, hlevels => by
      have hoperand := read?_document ha true
        (Json.nesting_lt_levels "a" (by simp) hlevels)
      rcases Json.variant?_written fieldNames_proper "Not" [("a", some ja)]
        (by decide) rfl inner with ⟨htag, hfields⟩
      rw [read?]
      refine Option.bind_eq_some_iff.mpr ⟨_, htag, Option.bind_eq_some_iff.mpr ⟨_, hfields, ?_⟩⟩
      simp [Json.required, hoperand]
  | _, _, @HasDocument.select _ _ _ jc jt jf hc ht hf, levels + 1, inner, hlevels => by
      have hcondition := read?_document hc true
        (Json.nesting_lt_levels "condition" (by simp) hlevels)
      have htrue := read?_document ht true
        (Json.nesting_lt_levels "true_value" (by simp) hlevels)
      have hfalse := read?_document hf true
        (Json.nesting_lt_levels "false_value" (by simp) hlevels)
      rcases Json.variant?_written fieldNames_proper "Select"
        [("condition", some jc), ("true_value", some jt), ("false_value", some jf)]
        (by decide) rfl inner with ⟨htag, hfields⟩
      rw [read?]
      refine Option.bind_eq_some_iff.mpr ⟨_, htag, Option.bind_eq_some_iff.mpr ⟨_, hfields, ?_⟩⟩
      simp [Json.required, hcondition, htrue, hfalse]
  | _, _, @HasDocument.letIn n _ _ jv jb hv hb, levels + 1, inner, hlevels => by
      have hvalue := read?_document hv true
        (Json.nesting_lt_levels "value" (by simp) hlevels)
      have hbody := read?_document hb true
        (Json.nesting_lt_levels "body" (by simp) hlevels)
      rcases Json.variant?_written fieldNames_proper "Let"
        [("name", some (.text n)), ("value", some jv), ("body", some jb)]
        (by decide) rfl inner with ⟨htag, hfields⟩
      rw [read?]
      refine Option.bind_eq_some_iff.mpr ⟨_, htag, Option.bind_eq_some_iff.mpr ⟨_, hfields, ?_⟩⟩
      simp [Json.required, Json.text?, hvalue, hbody]
  | _, _, @HasDocument.call t n _ jargs _ jk hargs hk, levels + 1, inner, hlevels => by
      have hitems := mapM_read?_documents hargs
        (Json.nestingOfItems_lt_levels "args" (by simp) hlevels)
      rcases Json.variant?_written fieldNames_proper "Call"
        [("ty", some t.toJson), ("name", some (.text n)), ("args", some (.list jargs)),
          ("call_type", jk)]
        (by decide) rfl inner with ⟨htag, hfields⟩
      rw [read?]
      refine Option.bind_eq_some_iff.mpr ⟨_, htag, Option.bind_eq_some_iff.mpr ⟨_, hfields, ?_⟩⟩
      simp [Json.required, ScalarType.ofJson?_toJson, Json.text?, Json.list?, hitems,
        hk.read (CallType.ofJson?_text _)]
  | _, _, @HasDocument.load t n _ ji hi, levels + 1, inner, hlevels => by
      have hindex := read?_document hi true
        (Json.nesting_lt_levels "index" (by simp) hlevels)
      rcases Json.variant?_written fieldNames_proper "Load"
        [("ty", some t.toJson), ("name", some (.text n)), ("index", some ji)]
        (by decide) rfl inner with ⟨htag, hfields⟩
      rw [read?]
      refine Option.bind_eq_some_iff.mpr ⟨_, htag, Option.bind_eq_some_iff.mpr ⟨_, hfields, ?_⟩⟩
      simp [Json.required, ScalarType.ofJson?_toJson, Json.text?, hindex]

/-- Expressions in a list are read one by one. -/
theorem mapM_read?_documents : ∀ {es : List Expr} {js : List Json}, ListHasDocuments es js →
    ∀ {levels : Nat}, Json.nestingOfItems js < levels → js.mapM (read? levels true) = some es
  | _, _, .nil, _, _ => rfl
  | _, _, .cons he hes, _, hlevels => by
      rw [Json.nestingOfItems] at hlevels
      rw [List.mapM_cons, read?_document he true (by omega), mapM_read?_documents hes (by omega)]
      rfl

end

/-- Expressions inside statements are read with a bound of their own. -/
theorem ofInnerJson?_document {e : Expr} {j : Json} (h : HasDocument e j) :
    ofInnerJson? j = some e :=
  read?_document h true (Nat.lt_succ_self _)

theorem mapM_ofInnerJson?_documents : ∀ {es : List Expr} {js : List Json},
    ListHasDocuments es js → js.mapM ofInnerJson? = some es
  | _, _, .nil => rfl
  | _, _, .cons he hes => by
      rw [List.mapM_cons, ofInnerJson?_document he, mapM_ofInnerJson?_documents hes]
      rfl

/-! ## Legibility -/

mutual

/-- Every document of an expression can be read and is no deeper than the full one. -/
theorem abridges_of_hasDocument : ∀ {e : Expr} {j : Json}, HasDocument e j →
    Json.Abridges e.toJson j
  | _, _, .intImm t v =>
      Json.abridges_tagged
        (.cons (.kept t.abridges_toJson) (.cons (.kept (Json.abridges_int v)) .nil))
  | _, _, .uintImm t v =>
      Json.abridges_tagged
        (.cons (.kept t.abridges_toJson) (.cons (.kept (Json.abridges_nat v.toNat_lt)) .nil))
  | _, _, .textImm v => Json.abridges_tagged (.cons (.kept (Json.abridges_text v)) .nil)
  | _, _, .var t n =>
      Json.abridges_tagged
        (.cons (.kept t.abridges_toJson) (.cons (.kept (Json.abridges_text n)) .nil))
  | _, _, .cast t hv =>
      Json.abridges_tagged
        (.cons (.kept t.abridges_toJson) (.cons (.kept (abridges_of_hasDocument hv)) .nil))
  | _, _, .binary op ha hb =>
      Json.abridges_tagged
        (.cons (.kept (Json.abridges_text _)) (.cons (.kept (abridges_of_hasDocument ha))
          (.cons (.kept (abridges_of_hasDocument hb)) .nil)))
  | _, _, .not ha => Json.abridges_tagged (.cons (.kept (abridges_of_hasDocument ha)) .nil)
  | _, _, .select hc ht hf =>
      Json.abridges_tagged
        (.cons (.kept (abridges_of_hasDocument hc)) (.cons (.kept (abridges_of_hasDocument ht))
          (.cons (.kept (abridges_of_hasDocument hf)) .nil)))
  | _, _, .letIn n hv hb =>
      Json.abridges_tagged
        (.cons (.kept (Json.abridges_text n)) (.cons (.kept (abridges_of_hasDocument hv))
          (.cons (.kept (abridges_of_hasDocument hb)) .nil)))
  | _, _, .call t n hargs hk =>
      Json.abridges_tagged
        (.cons (.kept t.abridges_toJson) (.cons (.kept (Json.abridges_text n))
          (.cons (.kept (Json.abridges_list (abridge_of_listHasDocuments hargs)))
            (.cons (hk.abridges (Json.abridges_text _)) .nil))))
  | _, _, .load t n hi =>
      Json.abridges_tagged
        (.cons (.kept t.abridges_toJson) (.cons (.kept (Json.abridges_text n))
          (.cons (.kept (abridges_of_hasDocument hi)) .nil)))

theorem abridge_of_listHasDocuments : ∀ {es : List Expr} {js : List Json},
    ListHasDocuments es js → List.Forall₂ Json.Abridges (listToJson es) js
  | _, _, .nil => .nil
  | _, _, .cons he hes => .cons (abridges_of_hasDocument he) (abridge_of_listHasDocuments hes)

end

/-! ## The full document -/

/-- There is no floating point constant among some expressions. -/
def FloatFree (es : List Expr) : Prop := ∀ t x, .floatImm t x ∉ es

theorem FloatFree.mono {es fs : List Expr} (h : FloatFree es) (hsub : ∀ e ∈ fs, e ∈ es) :
    FloatFree fs :=
  fun t x hx => h t x (hsub _ hx)

mutual

/-- The full document of an expression is one of its documents. -/
theorem hasDocument_toJson : ∀ (e : Expr), FloatFree e.nodes → HasDocument e e.toJson
  | .intImm t v, _ => .intImm t v
  | .uintImm t v, _ => .uintImm t v
  | .floatImm t x, h => absurd (by simp [nodes]) (h t x)
  | .textImm v, _ => .textImm v
  | .var t n, _ => .var t n
  | .cast t v, h => .cast t (hasDocument_toJson v (h.mono (by simp +contextual [nodes])))
  | .binary op a b, h =>
      .binary op (hasDocument_toJson a (h.mono (by simp +contextual [nodes])))
        (hasDocument_toJson b (h.mono (by simp +contextual [nodes])))
  | .not a, h => .not (hasDocument_toJson a (h.mono (by simp +contextual [nodes])))
  | .select c t f, h =>
      .select (hasDocument_toJson c (h.mono (by simp +contextual [nodes])))
        (hasDocument_toJson t (h.mono (by simp +contextual [nodes])))
        (hasDocument_toJson f (h.mono (by simp +contextual [nodes])))
  | .letIn n v b, h =>
      .letIn n (hasDocument_toJson v (h.mono (by simp +contextual [nodes])))
        (hasDocument_toJson b (h.mono (by simp +contextual [nodes])))
  | .call t n args _, h =>
      .call t n (listHasDocuments_toJson args (h.mono (by simp +contextual [nodes]))) .kept
  | .load t n i, h => .load t n (hasDocument_toJson i (h.mono (by simp +contextual [nodes])))

theorem listHasDocuments_toJson : ∀ (es : List Expr), FloatFree (nodesOfList es) →
    ListHasDocuments es (listToJson es)
  | [], _ => .nil
  | e :: es, h =>
      .cons (hasDocument_toJson e (h.mono (by simp +contextual [nodesOfList])))
        (listHasDocuments_toJson es (h.mono (by simp +contextual [nodesOfList])))

end

end Expr

end StencilRtl
